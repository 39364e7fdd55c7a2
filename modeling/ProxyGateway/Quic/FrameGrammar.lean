/-
# ProxyGateway.Quic.FrameGrammar — the language that `parseCryptoFrames` reads a name from

RFC 9000 writes a frame as its type and a fixed sequence of variable-length integers.  `Ack`,
`EcnCounts`, `CryptoBody` and `Stream` are those sequences as data; a field that must fit another one (the
number of ranges, the length of the data) carries the equation, so every value is a well-formed body.

`Skips` lists what the loop of `parseCryptoFrames` steps over, and `Leads bytes s` says that stepping
over such items brings it to a CRYPTO frame naming `s`.  `parseCryptoFrames_eq_ok_iff` is the square:
the function returns `s` exactly on the byte strings that lead to `s`.  Reading a plaintext is thereby
reading a grammar, and two of its rules are not those of RFC 9000: type 0x01 (PING, which has no body)
is skipped together with an ACK body, and a CRYPTO frame is judged by its own data alone.
-/
import ProxyGateway.Quic.Frames
import ProxyGateway.Quic.HelloGrammar

namespace ProxyGateway.Quic

open ProxyGateway.Lang

/-! ## Variable-length integers as data -/

/-- A variable-length integer: `val` written in `2 ^ size` bytes. -/
structure VarInt where
  size : Nat
  val : Nat
  size_lt : size < 4
  val_lt : val < 2 ^ (8 * 2 ^ size - 2)

/-- The bytes of the integer. -/
def VarInt.bytes (x : VarInt) : Bytes := encVarint x.size x.val

theorem VarInt.bytes_length_pos (x : VarInt) : 0 < x.bytes.length := by
  rw [VarInt.bytes, encVarint_length]
  exact Nat.two_pow_pos _

/-- Whatever the decoder reads was written by the encoder. -/
theorem varint_split {buf : Bytes} (h : (varint buf).2 ≠ 0) :
    ∃ (x : VarInt) (rest : Bytes), buf = x.bytes ++ rest ∧
      varint buf = (x.val, x.bytes.length) := by
  cases buf with
  | nil => exact absurd rfl h
  | cons first rest =>
    simp only [varint] at h ⊢
    split at h
    · exact absurd rfl h
    rename_i hlen
    rw [if_neg hlen]
    have hfirst := first.toNat_lt
    obtain ⟨e, he⟩ : ∃ e, e = first.toNat / 64 := ⟨_, rfl⟩
    rw [← he] at hlen ⊢
    obtain ⟨k, hk⟩ : ∃ k, 2 ^ e = k + 1 := ⟨2 ^ e - 1, by have := Nat.two_pow_pos e; omega⟩
    rw [hk, List.length_cons] at hlen
    obtain ⟨mid, post, rfl, hmid⟩ : ∃ mid post, rest = mid ++ post ∧ mid.length = k :=
      exists_split (by omega)
    have htake : (first :: (mid ++ post)).take (2 ^ e) = first :: mid := by
      rw [hk, ← List.cons_append, ← hmid]
      exact List.take_left' rfl
    -- the two top bits are the tag, the rest is the value
    have hpow : 2 ^ (8 * 2 ^ e - 2) = 64 * 256 ^ k := by
      have h256 : (256 : Nat) = 2 ^ 8 := rfl
      rw [hk, show 8 * (k + 1) - 2 = 6 + 8 * k by omega, pow_add, h256, ← pow_mul]
      norm_num
    obtain ⟨m, hm, hm64⟩ : ∃ m, first.toNat = 64 * e + m ∧ m < 64 :=
      ⟨first.toNat % 64, by omega, Nat.mod_lt _ (by norm_num)⟩
    have hlow := beNat_lt mid
    rw [hmid] at hlow
    have hnat : beNat (first :: mid) = e * (64 * 256 ^ k) + (m * 256 ^ k + beNat mid) := by
      rw [beNat_cons, hmid, hm]
      ring
    have hbelow : m * 256 ^ k + beNat mid < 64 * 256 ^ k := by
      have hmul : m * 256 ^ k ≤ 63 * 256 ^ k := Nat.mul_le_mul_right _ (by omega)
      omega
    have hmod : beNat (first :: mid) % (64 * 256 ^ k) = m * 256 ^ k + beNat mid := by
      rw [hnat, Nat.mul_comm e, Nat.mul_add_mod, Nat.mod_eq_of_lt hbelow]
    refine ⟨⟨e, m * 256 ^ k + beNat mid, by omega, by rw [hpow]; exact hbelow⟩, post, ?_, ?_⟩
    · have hsize : (first :: mid).length = 2 ^ e := by rw [List.length_cons, hmid, hk]
      simp only [VarInt.bytes, encVarint]
      rw [hpow, ← hnat, ← hsize, beBytes_beNat, List.cons_append]
    · rw [htake]
      refine Prod.ext ?_ (encVarint_length _ _).symm
      show beNat (first :: mid) % 2 ^ (8 * 2 ^ e - 2) = m * 256 ^ k + beNat mid
      rw [hpow, hmod]

theorem varint_bytes (x : VarInt) (rest : Bytes) :
    varint (x.bytes ++ rest) = (x.val, x.bytes.length) := by
  rw [VarInt.bytes, varint_encVarint x.size_lt x.val_lt, encVarint_length]

variable {plaintext : Bytes}

/-- Reading an integer where one stands. -/
theorem varintAt_of_at {off : Nat} {r : Bytes} (x : VarInt) (h : At plaintext off (x.bytes ++ r)) :
    varintAt plaintext off = .ok (x.val, off + x.bytes.length) := by
  refine Scan.bind_of_ok h.sliceFrom ?_
  refine Scan.bind_of_ok (readVarint_eq _) ?_
  rw [varint_bytes]
  refine Scan.bind_of_ok (refuseIf_neg ?_) rfl
  have hpos := x.bytes_length_pos
  show x.bytes.length ≠ 0
  omega

/-- An integer that was read stands at that place. -/
theorem at_of_varintAt {off off' v : Nat} {r : Bytes} (h : varintAt plaintext off = .ok (v, off'))
    (hat : At plaintext off r) :
    ∃ (x : VarInt) (rest : Bytes), r = x.bytes ++ rest ∧ v = x.val ∧ At plaintext off' rest := by
  obtain ⟨r', hr', h⟩ := Scan.bind_eq_ok.mp h
  rw [hat.sliceFrom] at hr'
  obtain rfl : r = r' := Scan.ok.inj hr'
  have hsplit := @varint_split r
  obtain ⟨field, hfield, h⟩ := Scan.bind_eq_ok.mp h
  rw [readVarint_eq] at hfield
  rw [Scan.ok.inj hfield] at hsplit
  obtain ⟨_, hn, h⟩ := Scan.bind_eq_ok.mp h
  rw [refuseIf_eq_ok] at hn
  obtain ⟨x, rest, rfl, rfl⟩ := hsplit hn
  obtain ⟨rfl, rfl⟩ := Prod.mk.inj (Scan.ok.inj h)
  exact ⟨x, rest, rfl, rfl, hat.advance⟩

/-! ## Frame bodies as data -/

/-- The ranges of an ACK frame: a gap and a length each. -/
def rangesBytes : List (VarInt × VarInt) → Bytes
  | [] => []
  | (gap, len) :: ranges => gap.bytes ++ (len.bytes ++ rangesBytes ranges)

/-- The body of an ACK frame. -/
structure Ack where
  largest : VarInt
  delay : VarInt
  rangeCount : VarInt
  firstRange : VarInt
  ranges : List (VarInt × VarInt)
  count_eq : rangeCount.val = ranges.length

def Ack.bytes (a : Ack) : Bytes :=
  a.largest.bytes ++ (a.delay.bytes ++ (a.rangeCount.bytes ++ (a.firstRange.bytes ++
    rangesBytes a.ranges)))

/-- The ECN counts that follow the body in an ACK frame of type 0x03. -/
structure EcnCounts where
  ect0 : VarInt
  ect1 : VarInt
  ce : VarInt

def EcnCounts.bytes (c : EcnCounts) : Bytes := c.ect0.bytes ++ (c.ect1.bytes ++ c.ce.bytes)

/-- The body of a CRYPTO frame. -/
structure CryptoBody where
  offset : VarInt
  length : VarInt
  data : Bytes
  length_eq : length.val = data.length

def CryptoBody.bytes (c : CryptoBody) : Bytes := c.offset.bytes ++ (c.length.bytes ++ c.data)

/-- A STREAM frame with a length field: its type and its body. -/
structure Stream where
  type : UInt8
  isStream : type &&& 0x08 ≠ 0
  hasLength : type &&& 0x02 ≠ 0
  id : VarInt
  offset : Option VarInt
  offset_iff : offset.isSome ↔ type &&& 0x04 ≠ 0
  length : VarInt
  data : Bytes
  length_eq : length.val = data.length

def Stream.bytes (f : Stream) : Bytes :=
  f.id.bytes ++ ((match f.offset with
    | some o => o.bytes
    | none => []) ++ (f.length.bytes ++ f.data))

/-! ## The grammar of the walk -/

/-- **`Skips item`** — what one item is that the walk steps over. -/
inductive Skips : Bytes → Prop where
  | padding : Skips [0x00]
  | ack {type : UInt8} (htype : type = 0x01 ∨ type = 0x02) (a : Ack) : Skips (type :: a.bytes)
  | ackEcn (a : Ack) (c : EcnCounts) : Skips (0x03 :: (a.bytes ++ c.bytes))
  | crypto (c : CryptoBody) (hnone : ∀ s, NamesHost c.data s → s = []) : Skips (0x06 :: c.bytes)
  | stream (f : Stream) : Skips (f.type :: f.bytes)

/-- **`Leads bytes s`** — items to step over, then a CRYPTO frame whose data names `s`. -/
inductive Leads : Bytes → Bytes → Prop where
  | crypto {c : CryptoBody} {rest s : Bytes} (hname : NamesHost c.data s) (hne : s ≠ []) :
      Leads (0x06 :: (c.bytes ++ rest)) s
  | skip {item rest s : Bytes} (hitem : Skips item) (hrest : Leads rest s) : Leads (item ++ rest) s

/-! ## Reading a body where one stands -/

theorem ackRanges_of_at (ranges : List (VarInt × VarInt)) {off : Nat} {r : Bytes}
    (h : At plaintext off (rangesBytes ranges ++ r)) :
    ackRanges plaintext ranges.length off = .ok (off + (rangesBytes ranges).length) := by
  induction ranges generalizing off with
  | nil => rfl
  | cons range ranges ih =>
    obtain ⟨gap, len⟩ := range
    simp only [rangesBytes, List.append_assoc] at h
    refine Scan.bind_of_ok (varintAt_of_at gap h) ?_
    refine Scan.bind_of_ok (varintAt_of_at len h.advance) ?_
    show ackRanges plaintext ranges.length (off + gap.bytes.length + len.bytes.length) = _
    rw [ih h.advance.advance]
    simp only [rangesBytes, List.length_append, Nat.add_assoc]

theorem ecnCounts_of_at (c : EcnCounts) {off : Nat} {r : Bytes}
    (h : At plaintext off (c.bytes ++ r)) :
    ecnCounts plaintext off = .ok (off + c.bytes.length) := by
  simp only [EcnCounts.bytes, List.append_assoc] at h
  refine Scan.bind_of_ok (varintAt_of_at c.ect0 h) ?_
  refine Scan.bind_of_ok (varintAt_of_at c.ect1 h.advance) ?_
  refine Scan.bind_of_ok (varintAt_of_at c.ce h.advance.advance) ?_
  simp only [EcnCounts.bytes, List.length_append, Nat.add_assoc]

/-- The ACK body itself; what is done behind it depends on the frame type. -/
theorem ackFrame_of_at (a : Ack) {type : UInt8} {off : Nat} {r : Bytes}
    (h : At plaintext off (a.bytes ++ r)) :
    ackFrame type plaintext off =
      if type = 0x03 then do
        let off ← ecnCounts plaintext (off + a.bytes.length)
        .ok (.next off)
      else .ok (.next (off + a.bytes.length)) := by
  simp only [Ack.bytes, List.append_assoc] at h
  refine Scan.bind_of_ok (varintAt_of_at a.largest h) ?_
  refine Scan.bind_of_ok (varintAt_of_at a.delay h.advance) ?_
  refine Scan.bind_of_ok (varintAt_of_at a.rangeCount h.advance.advance) ?_
  refine Scan.bind_of_ok (varintAt_of_at a.firstRange h.advance.advance.advance) ?_
  rw [a.count_eq]
  refine Scan.bind_of_ok (ackRanges_of_at a.ranges h.advance.advance.advance.advance) ?_
  simp only [Ack.bytes, List.length_append, Nat.add_assoc]

/-- A CRYPTO frame: its own data decides whether the walk ends here. -/
theorem cryptoFrame_of_at (c : CryptoBody) {off : Nat} {r : Bytes}
    (h : At plaintext off (c.bytes ++ r)) :
    cryptoFrame plaintext off =
      match extractSNIFromClientHello c.data with
      | .ok sni => if sni ≠ [] then .ok (.sni sni) else .ok (.next (off + c.bytes.length))
      | .reject => .ok (.next (off + c.bytes.length))
      | .panic => .panic := by
  have hend : off + c.offset.bytes.length + c.length.bytes.length + c.data.length =
      off + c.bytes.length := by
    simp only [CryptoBody.bytes, List.length_append, Nat.add_assoc]
  rw [← hend]
  simp only [CryptoBody.bytes, List.append_assoc] at h
  have hlen := h.advance.length_eq
  rw [List.length_append, List.length_append] at hlen
  refine Scan.bind_of_ok (varintAt_of_at c.offset h) ?_
  refine Scan.bind_of_ok h.advance.sliceFrom ?_
  refine Scan.bind_of_ok (readVarint_eq _) ?_
  rw [varint_bytes, c.length_eq]
  have hpos := c.length.bytes_length_pos
  refine Scan.bind_of_ok (refuseIf_neg (by omega)) ?_
  exact Scan.bind_of_ok h.advance.advance.slice rfl

theorem streamFrame_of_at (f : Stream) {off : Nat} {r : Bytes}
    (h : At plaintext off (f.bytes ++ r)) :
    streamFrame f.type plaintext off = .ok (.next (off + f.bytes.length)) := by
  obtain ⟨o, ho⟩ : ∃ o : Bytes, o = (match f.offset with
    | some o => o.bytes
    | none => []) := ⟨_, rfl⟩
  have hend : off + f.bytes.length = off + f.id.bytes.length + o.length + f.length.bytes.length +
      f.data.length := by
    simp only [Stream.bytes, ← ho, List.length_append, Nat.add_assoc]
  simp only [Stream.bytes, ← ho, List.append_assoc] at h
  have hlen := h.advance.advance.advance.length_eq
  rw [List.length_append] at hlen
  refine Scan.bind_of_ok (varintAt_of_at f.id h) ?_
  refine Scan.bind_of_ok (a := off + f.id.bytes.length + o.length) ?_ ?_
  · unfold streamOffset
    have hiff := f.offset_iff
    cases hoff : f.offset with
    | none =>
      rw [hoff] at hiff ho
      rw [if_neg (fun hne => by simpa using hiff.mpr hne), ho]
      rfl
    | some x =>
      rw [hoff] at hiff ho
      rw [if_pos (hiff.mp rfl)]
      simp only at ho
      subst ho
      exact Scan.bind_of_ok (varintAt_of_at x h.advance) rfl
  · refine Scan.bind_of_ok (a := (f.data.length,
      off + f.id.bytes.length + o.length + f.length.bytes.length)) ?_ ?_
    · unfold streamLength
      rw [if_pos f.hasLength, ← f.length_eq]
      exact varintAt_of_at f.length h.advance.advance
    · refine Scan.bind_of_ok (refuseIf_neg (by omega)) ?_
      rw [hend]

/-! ## A body that was read stands there -/

theorem at_of_ackRanges {k off off' : Nat} {r : Bytes} (h : ackRanges plaintext k off = .ok off')
    (hat : At plaintext off r) :
    ∃ (ranges : List (VarInt × VarInt)) (rest : Bytes),
      r = rangesBytes ranges ++ rest ∧ k = ranges.length ∧ At plaintext off' rest := by
  induction k generalizing off r with
  | zero =>
    obtain rfl := Scan.ok.inj h
    exact ⟨[], r, rfl, rfl, hat⟩
  | succ k ih =>
    obtain ⟨⟨_, o₁⟩, hgap, h⟩ := Scan.bind_eq_ok.mp h
    obtain ⟨⟨_, o₂⟩, hlen, h⟩ := Scan.bind_eq_ok.mp h
    obtain ⟨gap, r₁, rfl, -, hat₁⟩ := at_of_varintAt hgap hat
    obtain ⟨len, r₂, rfl, -, hat₂⟩ := at_of_varintAt hlen hat₁
    obtain ⟨ranges, rest, rfl, rfl, hend⟩ := ih h hat₂
    exact ⟨(gap, len) :: ranges, rest, by simp [rangesBytes], rfl, hend⟩

theorem at_of_ecnCounts {off off' : Nat} {r : Bytes} (h : ecnCounts plaintext off = .ok off')
    (hat : At plaintext off r) :
    ∃ (c : EcnCounts) (rest : Bytes), r = c.bytes ++ rest ∧ At plaintext off' rest := by
  obtain ⟨⟨_, o₁⟩, h₁, h⟩ := Scan.bind_eq_ok.mp h
  obtain ⟨⟨_, o₂⟩, h₂, h⟩ := Scan.bind_eq_ok.mp h
  obtain ⟨⟨_, o₃⟩, h₃, h⟩ := Scan.bind_eq_ok.mp h
  obtain ⟨ect0, r₁, rfl, -, hat₁⟩ := at_of_varintAt h₁ hat
  obtain ⟨ect1, r₂, rfl, -, hat₂⟩ := at_of_varintAt h₂ hat₁
  obtain ⟨ce, r₃, rfl, -, hat₃⟩ := at_of_varintAt h₃ hat₂
  obtain rfl := Scan.ok.inj h
  exact ⟨⟨ect0, ect1, ce⟩, r₃, by simp [EcnCounts.bytes], hat₃⟩

theorem at_of_ackFrame {type : UInt8} {off : Nat} {r : Bytes} {res : FrameResult}
    (h : ackFrame type plaintext off = .ok res) (hat : At plaintext off r) :
    ∃ (a : Ack) (rest : Bytes), r = a.bytes ++ rest := by
  obtain ⟨⟨_, o₁⟩, h₁, h⟩ := Scan.bind_eq_ok.mp h
  obtain ⟨⟨_, o₂⟩, h₂, h⟩ := Scan.bind_eq_ok.mp h
  obtain ⟨⟨count, o₃⟩, h₃, h⟩ := Scan.bind_eq_ok.mp h
  obtain ⟨⟨_, o₄⟩, h₄, h⟩ := Scan.bind_eq_ok.mp h
  obtain ⟨o₅, h₅, -⟩ := Scan.bind_eq_ok.mp h
  obtain ⟨largest, r₁, rfl, -, hat₁⟩ := at_of_varintAt h₁ hat
  obtain ⟨delay, r₂, rfl, -, hat₂⟩ := at_of_varintAt h₂ hat₁
  obtain ⟨rangeCount, r₃, rfl, rfl, hat₃⟩ := at_of_varintAt h₃ hat₂
  obtain ⟨firstRange, r₄, rfl, -, hat₄⟩ := at_of_varintAt h₄ hat₃
  obtain ⟨ranges, rest, rfl, hcount, -⟩ := at_of_ackRanges h₅ hat₄
  exact ⟨⟨largest, delay, rangeCount, firstRange, ranges, hcount⟩, rest, by simp [Ack.bytes]⟩

theorem at_of_cryptoFrame {off : Nat} {r : Bytes} {res : FrameResult}
    (h : cryptoFrame plaintext off = .ok res) (hat : At plaintext off r) :
    ∃ (c : CryptoBody) (rest : Bytes), r = c.bytes ++ rest := by
  obtain ⟨⟨_, o₁⟩, h₁, h⟩ := Scan.bind_eq_ok.mp h
  obtain ⟨offset, r₁, rfl, -, hat₁⟩ := at_of_varintAt h₁ hat
  obtain ⟨r', hr', h⟩ := Scan.bind_eq_ok.mp h
  rw [hat₁.sliceFrom] at hr'
  obtain rfl : r₁ = r' := Scan.ok.inj hr'
  have hsplit := @varint_split r₁
  obtain ⟨field, hfield, h⟩ := Scan.bind_eq_ok.mp h
  rw [readVarint_eq] at hfield
  rw [Scan.ok.inj hfield] at hsplit
  obtain ⟨_, hn, h⟩ := Scan.bind_eq_ok.mp h
  rw [refuseIf_eq_ok, not_or] at hn
  obtain ⟨len, r₂, rfl, rfl⟩ := hsplit hn.1
  obtain ⟨data, hdata, -⟩ := Scan.bind_eq_ok.mp h
  obtain ⟨pre, hx, ho⟩ := hat₁.advance
  obtain ⟨hend, rest, rfl⟩ := slice_split hdata hx ho
  exact ⟨⟨offset, len, data, by omega⟩, rest, by simp [CryptoBody.bytes]⟩

/-- A STREAM frame without a length field runs to the end. -/
theorem at_of_streamFrame {type : UInt8} {off : Nat} {r : Bytes} {res : FrameResult}
    (hstream : type &&& 0x08 ≠ 0) (h : streamFrame type plaintext off = .ok res)
    (hat : At plaintext off r) :
    (∃ (f : Stream) (rest : Bytes), f.type = type ∧ r = f.bytes ++ rest) ∨
      res = .next plaintext.length := by
  obtain ⟨⟨_, o₁⟩, h₁, h⟩ := Scan.bind_eq_ok.mp h
  obtain ⟨id, r₁, rfl, -, hat₁⟩ := at_of_varintAt h₁ hat
  obtain ⟨o₂, h₂, h⟩ := Scan.bind_eq_ok.mp h
  have hoffset : ∃ (o : Option VarInt) (rest : Bytes), (o.isSome ↔ type &&& 0x04 ≠ 0) ∧
      r₁ = (match o with
        | some x => x.bytes
        | none => []) ++ rest ∧ At plaintext o₂ rest := by
    unfold streamOffset at h₂
    split at h₂
    · rename_i hbit
      obtain ⟨⟨_, o⟩, hv, ho⟩ := Scan.bind_eq_ok.mp h₂
      obtain ⟨x, rest, rfl, -, hat₂⟩ := at_of_varintAt hv hat₁
      obtain rfl := Scan.ok.inj ho
      exact ⟨some x, rest, by simp [hbit], rfl, hat₂⟩
    · rename_i hbit
      obtain rfl := Scan.ok.inj h₂
      exact ⟨none, r₁, by simpa using hbit, rfl, hat₁⟩
  obtain ⟨offset, r₂, hiff, rfl, hat₂⟩ := hoffset
  obtain ⟨⟨dataLen, o₃⟩, h₃, h⟩ := Scan.bind_eq_ok.mp h
  obtain ⟨_, hguard, h⟩ := Scan.bind_eq_ok.mp h
  rw [refuseIf_eq_ok] at hguard
  unfold streamLength at h₃
  split at h₃
  · rename_i hbit
    obtain ⟨len, r₃, rfl, rfl, hat₃⟩ := at_of_varintAt h₃ hat₂
    have hlen := hat₃.length_eq
    obtain ⟨data, rest, rfl, hdata⟩ : ∃ mid post, r₃ = mid ++ post ∧ mid.length = len.val :=
      exists_split (by omega)
    exact Or.inl ⟨⟨type, hstream, hbit, id, offset, hiff, len, data, hdata.symm⟩, rest, rfl,
      by simp [Stream.bytes]⟩
  · obtain ⟨rfl, rfl⟩ := Prod.mk.inj (Scan.ok.inj h₃)
    right
    rw [← Scan.ok.inj h]
    have hlen := hat₂.length_eq
    congr 1
    omega

/-! ## The loop -/

theorem frameLoop_of_sni {off : Nat} {s : Bytes} (h : off < plaintext.length)
    (hn : frameAt plaintext off = .ok (.sni s)) : frameLoop plaintext off = .ok s := by
  rw [frameLoop, dif_pos h]
  split <;> simp_all

theorem frameLoop_of_next {off off' : Nat} (h : off < plaintext.length)
    (hn : frameAt plaintext off = .ok (.next off')) :
    frameLoop plaintext off = frameLoop plaintext off' := by
  rw [frameLoop, dif_pos h]
  split <;> simp_all

theorem frameLoop_of_le {off : Nat} (h : plaintext.length ≤ off) :
    frameLoop plaintext off = .reject := by
  rw [frameLoop, dif_neg (by omega)]

/-- How the loop gets to a name. -/
theorem frameLoop_eq_ok {off : Nat} {s : Bytes} (h : frameLoop plaintext off = .ok s) :
    off < plaintext.length ∧ (frameAt plaintext off = .ok (.sni s) ∨
      ∃ off', frameAt plaintext off = .ok (.next off') ∧ frameLoop plaintext off' = .ok s) := by
  by_cases hlt : off < plaintext.length
  · refine ⟨hlt, ?_⟩
    rw [frameLoop, dif_pos hlt] at h
    split at h
    · next name hn => exact Or.inl (by rw [hn, Scan.ok.inj h])
    · next off' hn => exact Or.inr ⟨off', hn, h⟩
    · nomatch h
    · nomatch h
  · rw [frameLoop_of_le (by omega)] at h
    nomatch h

theorem skipPadding_of_at {off : Nat} {r : Bytes} (h : At plaintext off (0x00 :: r)) :
    skipPadding plaintext off = skipPadding plaintext (off + 1) := by
  have hlt := h.lt_length
  have hget : plaintext[off] = 0x00 := by
    obtain ⟨pre, rfl, rfl⟩ := h
    simp
  rw [skipPadding, dif_pos hlt, if_pos hget]

/-- The inner loop of the PADDING case changes nothing: one byte of padding is stepped over. -/
theorem frameLoop_padding {off : Nat} {r : Bytes} (h : At plaintext off (0x00 :: r)) :
    frameLoop plaintext off = frameLoop plaintext (off + 1) := by
  have hpad : ∀ {off : Nat} {r : Bytes}, At plaintext off (0x00 :: r) →
      frameLoop plaintext off = frameLoop plaintext (skipPadding plaintext (off + 1)) := by
    intro off r h
    refine frameLoop_of_next h.lt_length ?_
    exact Scan.bind_of_ok h.index (if_pos rfl)
  rw [hpad h]
  by_cases hlt : off + 1 < plaintext.length
  · obtain ⟨b, r', rfl⟩ := h.succ.of_lt hlt
    by_cases hb : b = 0x00
    · subst hb
      rw [skipPadding_of_at h.succ, hpad h.succ]
    · have hget : plaintext[off + 1] = b := by
        obtain ⟨pre, rfl, rfl⟩ := h
        simp
      rw [skipPadding, dif_pos hlt, if_neg (by rw [hget]; exact hb)]
  · rw [skipPadding, dif_neg hlt]

/-- Stepping over an item. -/
theorem frameLoop_skips {item r : Bytes} {off : Nat} (hitem : Skips item)
    (h : At plaintext off (item ++ r)) :
    frameLoop plaintext off = frameLoop plaintext (off + item.length) := by
  cases hitem with
  | padding => exact frameLoop_padding h
  | ack htype a =>
    rw [List.length_cons, Nat.add_comm _ 1, ← Nat.add_assoc]
    refine frameLoop_of_next h.lt_length (Scan.bind_of_ok h.index ?_)
    rcases htype with rfl | rfl
    · exact ackFrame_of_at a h.succ
    · exact ackFrame_of_at a h.succ
  | ackEcn a c =>
    rw [List.length_cons, Nat.add_comm _ 1, ← Nat.add_assoc, List.length_append, ← Nat.add_assoc]
    rw [List.cons_append, List.append_assoc] at h
    refine frameLoop_of_next h.lt_length (Scan.bind_of_ok h.index ?_)
    refine (ackFrame_of_at a h.succ).trans ?_
    rw [if_pos rfl]
    exact Scan.bind_of_ok (ecnCounts_of_at c h.succ.advance) rfl
  | crypto c hnone =>
    rw [List.length_cons, Nat.add_comm _ 1, ← Nat.add_assoc]
    refine frameLoop_of_next h.lt_length (Scan.bind_of_ok h.index ?_)
    refine (cryptoFrame_of_at c h.succ).trans ?_
    have hsafe := extractSNIFromClientHello_safe c.data
    cases hsni : extractSNIFromClientHello c.data with
    | panic => exact absurd hsni hsafe.ne_panic
    | reject => rfl
    | ok sni =>
      rw [hnone sni (extractSNIFromClientHello_eq_ok_iff.mp hsni)]
      rfl
  | stream f =>
    rw [List.length_cons, Nat.add_comm _ 1, ← Nat.add_assoc]
    refine frameLoop_of_next h.lt_length (Scan.bind_of_ok h.index ?_)
    -- a type with bit 0x08 is none of the types named in the switch
    have hbit := f.isStream
    have hne : ∀ t : UInt8, t &&& 0x08 = 0 → f.type ≠ t := by
      rintro t ht rfl
      exact hbit ht
    rw [if_neg (hne 0x00 rfl), if_neg (hne 0x06 rfl), if_neg, if_pos hbit]
    · exact streamFrame_of_at f h.succ
    · rintro (h1 | h2 | h3)
      · exact hne 0x01 rfl h1
      · exact hne 0x02 rfl h2
      · exact hne 0x03 rfl h3

/-- Ending at a CRYPTO frame that names a host. -/
theorem frameLoop_names {c : CryptoBody} {r s : Bytes} {off : Nat} (hname : NamesHost c.data s)
    (hne : s ≠ []) (h : At plaintext off (0x06 :: (c.bytes ++ r))) :
    frameLoop plaintext off = .ok s := by
  refine frameLoop_of_sni h.lt_length (Scan.bind_of_ok h.index ?_)
  refine (cryptoFrame_of_at c h.succ).trans ?_
  rw [extractSNIFromClientHello_eq_ok_iff.mpr hname]
  simp only
  rw [if_pos hne]

/-- One turn read back: an item, a naming CRYPTO frame, or a STREAM frame that takes all the rest. -/
theorem skips_of_frameAt {b : UInt8} {off : Nat} {r : Bytes} {res : FrameResult}
    (hb : b ≠ 0x00) (h : frameAt plaintext off = .ok res) (hat : At plaintext off (b :: r)) :
    (∃ item rest, Skips item ∧ b :: r = item ++ rest) ∨
      (∃ (c : CryptoBody) (rest s : Bytes), NamesHost c.data s ∧ s ≠ [] ∧
        b :: r = 0x06 :: (c.bytes ++ rest)) ∨ res = .next plaintext.length := by
  obtain ⟨b', hb', h⟩ := Scan.bind_eq_ok.mp h
  rw [hat.index] at hb'
  obtain rfl : b = b' := Scan.ok.inj hb'
  rw [if_neg hb] at h
  split at h
  · rename_i h6
    subst h6
    obtain ⟨c, rest, rfl⟩ := at_of_cryptoFrame h hat.succ
    by_cases hname : ∃ s, NamesHost c.data s ∧ s ≠ []
    · obtain ⟨s, hs, hne⟩ := hname
      exact Or.inr (Or.inl ⟨c, rest, s, hs, hne, rfl⟩)
    · refine Or.inl ⟨0x06 :: c.bytes, rest, .crypto c ?_, rfl⟩
      intro s hs
      by_contra hne
      exact hname ⟨s, hs, hne⟩
  · split at h
    · rename_i htype
      obtain ⟨a, rest, rfl⟩ := at_of_ackFrame h hat.succ
      by_cases h3 : b = 0x03
      · subst h3
        rw [ackFrame_of_at a hat.succ, if_pos rfl] at h
        obtain ⟨o, ho, -⟩ := Scan.bind_eq_ok.mp h
        obtain ⟨c, rest', rfl, -⟩ := at_of_ecnCounts ho hat.succ.advance
        exact Or.inl ⟨_, rest', .ackEcn a c, by simp⟩
      · exact Or.inl ⟨_, rest, .ack (by tauto) a, rfl⟩
    · split at h
      · rename_i hbit
        rcases at_of_streamFrame hbit h hat.succ with ⟨f, rest, rfl, rfl⟩ | hend
        · exact Or.inl ⟨_, rest, .stream f, rfl⟩
        · exact Or.inr (Or.inr hend)
      · nomatch h

theorem frameLoop_of_leads {r s : Bytes} (h : Leads r s) :
    ∀ {off : Nat}, At plaintext off r → frameLoop plaintext off = .ok s := by
  induction h with
  | crypto hname hne =>
    intro off hat
    exact frameLoop_names hname hne hat
  | skip hitem _ ih =>
    intro off hat
    rw [frameLoop_skips hitem hat]
    exact ih hat.advance

theorem Skips.ne_nil {item : Bytes} (h : Skips item) : item ≠ [] := by
  cases h <;> exact List.cons_ne_nil _ _

theorem leads_of_frameLoop {off : Nat} {r s : Bytes} (h : frameLoop plaintext off = .ok s)
    (hat : At plaintext off r) : Leads r s := by
  -- every item that is stepped over leaves fewer bytes
  induction hm : r.length using Nat.strongRecOn generalizing off r with
  | ind m ih =>
    obtain ⟨hlt, hturn⟩ := frameLoop_eq_ok h
    obtain ⟨b, r, rfl⟩ := hat.of_lt hlt
    have hskip : ∀ {item rest : Bytes}, Skips item → b :: r = item ++ rest → Leads (b :: r) s := by
      intro item rest hitem hr
      rw [hr] at hat hm ⊢
      rw [frameLoop_skips hitem hat] at h
      have hpos := List.length_pos_iff.mpr hitem.ne_nil
      rw [List.length_append] at hm
      exact .skip hitem (ih rest.length (by omega) h hat.advance rfl)
    by_cases hb : b = 0x00
    · subst hb
      exact hskip .padding rfl
    · have hres : ∃ res, frameAt plaintext off = .ok res := by
        rcases hturn with hn | ⟨_, hn, -⟩
        · exact ⟨_, hn⟩
        · exact ⟨_, hn⟩
      obtain ⟨res, hres⟩ := hres
      rcases skips_of_frameAt hb hres hat with ⟨item, rest, hitem, hr⟩ |
          ⟨c, rest, t, hname, hne, hr⟩ | rfl
      · exact hskip hitem hr
      · rw [hr] at hat ⊢
        rw [frameLoop_names hname hne hat] at h
        obtain rfl := Scan.ok.inj h
        exact .crypto hname hne
      · rw [frameLoop_of_next hlt hres, frameLoop_of_le le_rfl] at h
        nomatch h

/-- **`parseCryptoFrames_eq_ok_iff`** — the function returns `s` exactly on the plaintexts that lead
to `s`. -/
theorem parseCryptoFrames_eq_ok_iff {s : Bytes} :
    parseCryptoFrames plaintext = .ok s ↔ Leads plaintext s := by
  constructor
  · intro h
    exact leads_of_frameLoop h (At.zero plaintext)
  · intro h
    exact frameLoop_of_leads h (At.zero plaintext)

end ProxyGateway.Quic
