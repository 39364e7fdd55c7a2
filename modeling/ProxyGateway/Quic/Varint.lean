/-
# ProxyGateway.Quic.Varint — `readVarint` and the RFC 9000 variable-length integers

`readVarint` is the one length decoder of the QUIC proxy: every field that follows the connection
IDs of an Initial packet, and every field of a frame, is read through it.  The model keeps the
checked indices of the Go text (`buf[1]`, `binary.BigEndian.Uint64(buf)`), and `readVarint_eq` says
once what all of them together compute: `varint`, the pure decoder (big-endian, the two top bits of
the first byte give the length).  Everything downstream reads `varint`.

`encVarint` is the sender's side.  A value may be written with any of the four lengths it fits in;
`varint_encVarint` is the round trip for each of them.
-/
import ProxyGateway.Lang.GoSlice
import Mathlib.Data.UInt
import Mathlib.Tactic.IntervalCases
import Mathlib.Tactic.Ring

namespace ProxyGateway.Quic

open ProxyGateway.Lang

/-- A Go `[]byte`. -/
abbrev Bytes := List UInt8

/-! ## Big-endian numbers -/

/-- The number that a byte string denotes, most significant byte first. -/
def beNat (bs : Bytes) : Nat := bs.foldl (fun acc b => acc * 256 + b.toNat) 0

/-- The `n` low-order bytes of `x`, most significant byte first. -/
def beBytes : Nat → Nat → Bytes
  | 0, _ => []
  | n + 1, x => UInt8.ofNat (x / 256 ^ n) :: beBytes n x

@[simp] theorem beNat_nil : beNat [] = 0 := rfl

theorem beNat_foldl (bs : Bytes) (acc : Nat) :
    bs.foldl (fun acc b => acc * 256 + b.toNat) acc = acc * 256 ^ bs.length + beNat bs := by
  induction bs generalizing acc with
  | nil => simp
  | cons b bs ih =>
    simp only [List.foldl_cons, List.length_cons, beNat]
    rw [ih, ih]
    ring

@[simp] theorem beNat_cons (b : UInt8) (bs : Bytes) :
    beNat (b :: bs) = b.toNat * 256 ^ bs.length + beNat bs := by
  unfold beNat
  rw [List.foldl_cons, beNat_foldl]
  simp [beNat]

theorem beNat_lt (bs : Bytes) : beNat bs < 256 ^ bs.length := by
  induction bs with
  | nil => simp
  | cons b bs ih =>
    have hb : b.toNat ≤ 255 := Nat.le_of_lt_succ b.toNat_lt
    have hmul : b.toNat * 256 ^ bs.length ≤ 255 * 256 ^ bs.length := Nat.mul_le_mul_right _ hb
    rw [beNat_cons, List.length_cons, pow_succ]
    omega

@[simp] theorem beBytes_length (n x : Nat) : (beBytes n x).length = n := by
  induction n with
  | zero => rfl
  | succ n ih => simp [beBytes, ih]

/-- Reading back the `n` low-order bytes gives the value modulo `256 ^ n`. -/
theorem beNat_beBytes (n x : Nat) : beNat (beBytes n x) = x % 256 ^ n := by
  induction n with
  | zero => simp [beBytes, Nat.mod_one]
  | succ n ih =>
    rw [beBytes, beNat_cons, ih, beBytes_length, UInt8.toNat_ofNat', pow_succ 256, Nat.mod_mul]
    ring

/-- The `n` low-order bytes do not see what stands above them. -/
theorem beBytes_add_mul (n k x : Nat) : beBytes n (k * 256 ^ n + x) = beBytes n x := by
  induction n generalizing k with
  | zero => rfl
  | succ n ih =>
    have hpos : 0 < 256 ^ n := by positivity
    have hsplit : k * 256 ^ (n + 1) + x = k * 256 * 256 ^ n + x := by ring
    have htop : (k * 256 ^ (n + 1) + x) / 256 ^ n = k * 256 + x / 256 ^ n := by
      rw [hsplit, Nat.mul_comm, Nat.mul_add_div hpos]
    have hbyte : UInt8.ofNat (k * 256 + x / 256 ^ n) = UInt8.ofNat (x / 256 ^ n) := by
      apply UInt8.toNat_inj.mp
      rw [UInt8.toNat_ofNat', UInt8.toNat_ofNat']
      omega
    rw [beBytes, beBytes, htop, hbyte, hsplit, ih]

/-- A byte string is written back by its own number. -/
theorem beBytes_beNat (bs : Bytes) : beBytes bs.length (beNat bs) = bs := by
  induction bs with
  | nil => rfl
  | cons b bs ih =>
    have hlt := beNat_lt bs
    have hpos : 0 < 256 ^ bs.length := by positivity
    have htop : (b.toNat * 256 ^ bs.length + beNat bs) / 256 ^ bs.length = b.toNat := by
      rw [Nat.mul_comm, Nat.mul_add_div hpos, Nat.div_eq_of_lt hlt, Nat.add_zero]
    rw [List.length_cons, beNat_cons, beBytes, htop, UInt8.ofNat_toNat, beBytes_add_mul, ih]

/-! ## The decoder -/

/-- `readVarint`: the value and the number of bytes used; length 0 when `buf` is too short. -/
def readVarint (buf : Bytes) : Scan (Nat × Nat) :=
  if buf.length = 0 then .ok (0, 0)
  else do
    let first ← index buf 0
    let length := 1 <<< (first >>> 6).toNat
    if buf.length < length then .ok (0, 0)
    else if length = 1 then .ok ((first &&& 0x3f).toNat, length)
    else if length = 2 then do
      let b1 ← index buf 1
      .ok ((first &&& 0x3f).toNat <<< 8 ||| b1.toNat, length)
    else if length = 4 then do
      let b1 ← index buf 1
      let b2 ← index buf 2
      let b3 ← index buf 3
      .ok ((first &&& 0x3f).toNat <<< 24 ||| b1.toNat <<< 16 ||| b2.toNat <<< 8 ||| b3.toNat,
        length)
    else if length = 8 then do
      let word ← slice buf 0 8
      .ok (beNat word &&& 0x3fffffffffffffff, length)
    else .ok (0, length)

/-- The pure decoder: the first byte's two top bits announce the length, the rest is the value. -/
def varint : Bytes → Nat × Nat
  | [] => (0, 0)
  | first :: rest =>
    let n := 2 ^ (first.toNat / 64)
    if (first :: rest).length < n then (0, 0)
    else (beNat ((first :: rest).take n) % 2 ^ (8 * n - 2), n)

theorem low6 (b : UInt8) : (b &&& 0x3f).toNat = b.toNat % 64 := by
  rw [UInt8.toNat_and]
  exact Nat.and_two_pow_sub_one_eq_mod b.toNat 6

theorem top2 (b : UInt8) : (b >>> 6).toNat = b.toNat / 64 := by
  rw [UInt8.toNat_shiftRight]
  exact Nat.shiftRight_eq_div_pow b.toNat 6

/-- `a << k | b` adds when `b` fits below the shift. -/
theorem shiftLeft_or_eq {a b k : Nat} (h : b < 2 ^ k) : a <<< k ||| b = a * 2 ^ k + b := by
  rw [← Nat.shiftLeft_add_eq_or_of_lt h, Nat.shiftLeft_eq]

/-- **`readVarint_eq`** — all indices of `readVarint` are in bounds, and it computes `varint`. -/
theorem readVarint_eq (buf : Bytes) : readVarint buf = .ok (varint buf) := by
  cases buf with
  | nil => rfl
  | cons first rest =>
    have hfirst := first.toNat_lt
    have hpre : first.toNat / 64 < 4 := by omega
    have hlow : first.toNat = 64 * (first.toNat / 64) + first.toNat % 64 := by omega
    have hmod : first.toNat % 64 < 64 := Nat.mod_lt _ (by norm_num)
    have hindex : index (first :: rest) 0 = .ok first := index_eq_ok rfl
    simp only [readVarint, varint, List.length_cons, Nat.add_eq_zero_iff, one_ne_zero, and_false,
      if_false, hindex, Scan.ok_bind, top2, low6, Nat.one_shiftLeft]
    generalize hp : first.toNat / 64 = p at *
    generalize hm : first.toNat % 64 = m at *
    by_cases hlen : rest.length + 1 < 2 ^ p
    · simp only [if_pos hlen]
    · simp only [if_neg hlen]
      -- the four lengths of RFC 9000
      interval_cases p
      · have htake : (first :: rest).take (2 ^ 0) = [first] := rfl
        have hval : beNat [first] % 2 ^ (8 * 2 ^ 0 - 2) = m := by
          rw [beNat_cons, beNat_nil, List.length_nil, hlow]
          omega
        rw [htake, hval]
        rfl
      · obtain ⟨b1, rest, rfl⟩ : ∃ b1 r, rest = b1 :: r := by
          cases rest with
          | nil => simp at hlen
          | cons b1 r => exact ⟨b1, r, rfl⟩
        have hb1 := b1.toNat_lt
        have hor : m <<< 8 ||| b1.toNat = m * 256 + b1.toNat := shiftLeft_or_eq (k := 8) (by omega)
        simp [index, hor, hlow]
        omega
      · -- the shifted bytes do not overlap, so the disjunction is a sum
        obtain ⟨b1, b2, b3, rest, rfl⟩ : ∃ b1 b2 b3 r, rest = b1 :: b2 :: b3 :: r := by
          rcases rest with _ | ⟨b1, _ | ⟨b2, _ | ⟨b3, r⟩⟩⟩
          · simp at hlen
          · simp at hlen
          · simp at hlen
          · exact ⟨b1, b2, b3, r, rfl⟩
        have hb1 := b1.toNat_lt
        have hb2 := b2.toNat_lt
        have hb3 := b3.toNat_lt
        have hor : m <<< 24 ||| b1.toNat <<< 16 ||| b2.toNat <<< 8 ||| b3.toNat
            = m * 2 ^ 24 + b1.toNat * 2 ^ 16 + b2.toNat * 2 ^ 8 + b3.toNat := by
          rw [Nat.or_assoc, Nat.or_assoc,
            shiftLeft_or_eq (a := b2.toNat) (k := 8) (b := b3.toNat) (by omega),
            shiftLeft_or_eq (a := b1.toNat) (k := 16) (by omega),
            shiftLeft_or_eq (k := 24) (by omega)]
          omega
        simp [index, hor, hlow]
        omega
      · have h8 : 8 ≤ (first :: rest).length := by
          simp only [List.length_cons]
          omega
        have hand : ∀ x : Nat, x &&& 0x3fffffffffffffff = x % 2 ^ 62 := fun x =>
          Nat.and_two_pow_sub_one_eq_mod x 62
        have hs : slice (first :: rest) 0 8 = .ok ((first :: rest).take 8) := by
          rw [slice_of_le (by omega) h8, List.drop_zero]
        simp only [Nat.reducePow, Nat.reduceMul, Nat.reduceSub, Nat.reduceEqDiff, if_false, if_true,
          hs, Scan.ok_bind, hand]

/-- The decoder never uses more bytes than there are. -/
theorem varint_len_le (buf : Bytes) : (varint buf).2 ≤ buf.length := by
  cases buf with
  | nil => simp [varint]
  | cons first rest =>
    simp only [varint]
    split
    · exact Nat.zero_le _
    · rename_i h
      exact Nat.le_of_not_lt h

theorem safe_readVarint (buf : Bytes) :
    Safe (readVarint buf) (fun r => r = varint buf ∧ r.2 ≤ buf.length) := by
  rw [readVarint_eq]
  exact ⟨rfl, varint_len_le buf⟩

/-! ## The encoder -/

/-- **`encVarint e v`** — `v` in `2 ^ e` bytes (`e < 4`), the length tag `e` in the top two bits. -/
def encVarint (e v : Nat) : Bytes := beBytes (2 ^ e) (e * 2 ^ (8 * 2 ^ e - 2) + v)

@[simp] theorem encVarint_length (e v : Nat) : (encVarint e v).length = 2 ^ e := by
  simp [encVarint]

/-- **Round trip**: whatever follows, the decoder returns the value and the length of its field. -/
theorem varint_encVarint {e v : Nat} (he : e < 4) (hv : v < 2 ^ (8 * 2 ^ e - 2)) (r : Bytes) :
    varint (encVarint e v ++ r) = (v, 2 ^ e) := by
  set x := e * 2 ^ (8 * 2 ^ e - 2) + v with hx
  obtain ⟨n, hn⟩ : ∃ n, 2 ^ e = n + 1 := ⟨2 ^ e - 1, by have := Nat.two_pow_pos e; omega⟩
  have henc : encVarint e v = UInt8.ofNat (x / 256 ^ n) :: beBytes n x := by
    rw [encVarint, ← hx, hn, beBytes]
  have htag : (UInt8.ofNat (x / 256 ^ n)).toNat / 64 = e := by
    rw [UInt8.toNat_ofNat']
    interval_cases e <;> (obtain rfl : n = _ := by simpa using hn.symm) <;> norm_num at hv hx ⊢ <;>
      omega
  have hlen : ¬ ((encVarint e v ++ r).length < 2 ^ e) := by simp
  have htake : (encVarint e v ++ r).take (2 ^ e) = encVarint e v := by
    rw [← encVarint_length e v, List.take_left]
  have hval : beNat (encVarint e v) % 2 ^ (8 * 2 ^ e - 2) = v := by
    rw [encVarint, beNat_beBytes, ← hx]
    interval_cases e <;> norm_num at hv hx ⊢ <;> omega
  rw [henc, List.cons_append] at hlen htake ⊢
  simp only [varint, htag, if_neg hlen, htake]
  rw [← henc, hval]

/-- The two top bits of the first byte are the two top bits of the whole field. -/
theorem beNat_div_tag (first : UInt8) (tail : Bytes) :
    beNat (first :: tail) / 2 ^ (8 * (tail.length + 1) - 2) = first.toNat / 64 := by
  have hpos : 0 < 256 ^ tail.length := by positivity
  have hscale : 2 ^ (8 * (tail.length + 1) - 2) = 256 ^ tail.length * 64 := by
    have hexp : 8 * (tail.length + 1) - 2 = 8 * tail.length + 6 := by omega
    rw [hexp, pow_add, pow_mul]
    norm_num
  rw [beNat_cons, hscale, ← Nat.div_div_eq_div_mul, Nat.mul_comm, Nat.mul_add_div hpos,
    Nat.div_eq_of_lt (beNat_lt tail), Nat.add_zero]

/-- **The other way round**: a field that is decoded is the encoding of the value it is decoded to,
in the length that was used. -/
theorem varint_eq_encVarint {b : Bytes} {v L : Nat} (h : varint b = (v, L)) (hL : 0 < L) :
    ∃ e < 4, L = 2 ^ e ∧ v < 2 ^ (8 * L - 2) ∧ b.take L = encVarint e v := by
  cases b with
  | nil =>
    obtain ⟨-, rfl⟩ := Prod.mk.injEq .. ▸ h
    exact absurd hL (lt_irrefl 0)
  | cons first rest =>
    have hfirst := first.toNat_lt
    simp only [varint] at h
    split at h
    · obtain ⟨-, rfl⟩ := Prod.mk.injEq .. ▸ h
      exact absurd hL (lt_irrefl 0)
    · rename_i hlen
      obtain ⟨hv, rfl⟩ := Prod.mk.injEq .. ▸ h
      have hbound : v < 2 ^ (8 * 2 ^ (first.toNat / 64) - 2) := by
        rw [← hv]
        exact Nat.mod_lt _ (Nat.two_pow_pos _)
      refine ⟨first.toNat / 64, by omega, rfl, hbound, ?_⟩
      obtain ⟨n, hn⟩ : ∃ n, 2 ^ (first.toNat / 64) = n + 1 := ⟨_, (Nat.succ_pred_eq_of_pos hL).symm⟩
      rw [encVarint]
      rw [hn, List.take_succ_cons] at hv ⊢
      have htail : (rest.take n).length = n := by
        rw [List.length_take]
        rw [hn, List.length_cons] at hlen
        omega
      -- the field is its tag followed by the value, and is written back by its own number
      have hfield : first.toNat / 64 * 2 ^ (8 * (n + 1) - 2) + v = beNat (first :: rest.take n) := by
        have htag := beNat_div_tag first (rest.take n)
        rw [htail] at htag
        rw [← hv, ← htag, Nat.mul_comm]
        exact Nat.div_add_mod ..
      have hwrite := beBytes_beNat (first :: rest.take n)
      rw [List.length_cons, htail] at hwrite
      rw [hfield, hwrite]

/-- The decoder gives up exactly on the fields that are cut short. -/
theorem varint_len_eq_zero {b : Bytes} :
    (varint b).2 = 0 ↔ ∀ first ∈ b.head?, b.length < 2 ^ (first.toNat / 64) := by
  cases b with
  | nil => simp [varint]
  | cons first rest =>
    simp only [varint, List.head?_cons, Option.mem_def, Option.some.injEq, forall_eq']
    split
    · rename_i h
      exact ⟨fun _ => h, fun _ => rfl⟩
    · rename_i h
      exact ⟨fun h0 => absurd h0 (Nat.two_pow_pos _).ne', fun hlt => absurd hlt h⟩

/-- The decoder of the source on an encoded field. -/
theorem readVarint_encVarint {e v : Nat} (he : e < 4) (hv : v < 2 ^ (8 * 2 ^ e - 2)) (r : Bytes) :
    readVarint (encVarint e v ++ r) = .ok (v, 2 ^ e) := by
  rw [readVarint_eq, varint_encVarint he hv]

/-- **`readVarint_inverts_encVarint`** — decoding undoes the encoding of every value in every length
it fits in, whatever follows; what is decoded is an encoding of the value it is decoded to; and the
length 0 stands for a field that is cut short, and for nothing else. -/
theorem readVarint_inverts_encVarint :
    (∀ e v r, e < 4 → v < 2 ^ (8 * 2 ^ e - 2) → readVarint (encVarint e v ++ r) = .ok (v, 2 ^ e)) ∧
    (∀ b v L, readVarint b = .ok (v, L) → 0 < L →
      ∃ e < 4, L = 2 ^ e ∧ v < 2 ^ (8 * L - 2) ∧ b.take L = encVarint e v) ∧
    (∀ b, (∃ v, readVarint b = .ok (v, 0)) ↔
      b = [] ∨ ∃ first rest, b = first :: rest ∧ b.length < 2 ^ (first >>> 6).toNat) := by
  refine ⟨fun e v r he hv => readVarint_encVarint he hv r, fun b v L h hL => ?_, fun b => ?_⟩
  · rw [readVarint_eq] at h
    exact varint_eq_encVarint (Scan.ok.inj h) hL
  · have hzero : (∃ v, readVarint b = .ok (v, 0)) ↔ (varint b).2 = 0 := by
      rw [readVarint_eq]
      constructor
      · rintro ⟨v, h⟩
        rw [Scan.ok.inj h]
      · intro h
        exact ⟨(varint b).1, by rw [← h]⟩
    rw [hzero, varint_len_eq_zero]
    cases b with
    | nil => simp
    | cons first rest => simp [Nat.shiftRight_eq_div_pow]

end ProxyGateway.Quic
