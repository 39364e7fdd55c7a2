/-
# ProxyGateway.Quic.Sender — the client Initial packet, and what `extractSNI` makes of it

The abstract layer of the QUIC proxy: `ClientInitial` is a packet before protection, a structure
whose fields carry every bound of the wire format, and `datagram` is the RFC 9001 sender (seal under
`iv XOR pn` with the unprotected header as additional data, then mask the low four bits of byte 0
and the packet number).  Nothing of it is read off the Go code.

`decryptInitial` has to undo it step by step.  `initialHeader_datagram`, `unmask_eq`,
`xorPacketNumber_eq` and `additionalData_eq` are the inverses, one per step, and
`decryptInitial_datagram` composes them.  The first byte is where the two sides disagree: the
receiver unmasks FIVE bits, so it reconstructs the sender's header exactly when bit 4 of the mask is
clear (`extractSNI_datagram_iff`).
-/
import ProxyGateway.Quic.Initial

namespace ProxyGateway.Quic

open ProxyGateway.Lang

/-! ## The sender -/

/-- **`ClientInitial`** — an Initial packet before protection.  `tokenExp` and `lengthExp` choose
one of the four encodings of the two varints; a value has to fit the one chosen. -/
structure ClientInitial where
  dcid : Bytes
  scid : Bytes
  token : Bytes
  pnLen : Nat
  pn : Nat
  tokenExp : Nat
  lengthExp : Nat
  plaintext : Bytes
  dcid_le : dcid.length ≤ 255
  scid_le : scid.length ≤ 255
  pnLen_pos : 1 ≤ pnLen
  pnLen_le : pnLen ≤ 4
  pn_lt : pn < 256 ^ pnLen
  tokenExp_lt : tokenExp < 4
  token_lt : token.length < 2 ^ (8 * 2 ^ tokenExp - 2)
  lengthExp_lt : lengthExp < 4
  length_lt : pnLen + plaintext.length + tagSize < 2 ^ (8 * 2 ^ lengthExp - 2)
  payload_ge : 20 ≤ pnLen + plaintext.length + tagSize

namespace ClientInitial

variable (p : ClientInitial)

/-- Byte 0: long header, fixed bit, type Initial, reserved bits 0, packet number length. -/
def firstByte : UInt8 := 0xc0 ||| UInt8.ofNat (p.pnLen - 1)

/-- The Length field counts the packet number and the sealed payload. -/
def length : Nat := p.pnLen + p.plaintext.length + tagSize

/-- The header between byte 0 and the packet number: it is sent as it stands. -/
def middle : Bytes :=
  [0x00, 0x00, 0x00, 0x01]
    ++ (UInt8.ofNat p.dcid.length :: p.dcid)
    ++ (UInt8.ofNat p.scid.length :: p.scid)
    ++ (encVarint p.tokenExp p.token.length ++ p.token)
    ++ encVarint p.lengthExp p.length

def packetNumber : Bytes := beBytes p.pnLen p.pn

/-- The unprotected header, which is the additional data of the AEAD. -/
def header : Bytes := p.firstByte :: p.middle ++ p.packetNumber

/-- The packet number, left-padded to the size of the IV, XORed with the IV. -/
def nonce (iv : Bytes) : Bytes := List.zipWith (· ^^^ ·) iv (beBytes 12 p.pn)

variable (c : Crypto) (keys : InitialKeys)

def ciphertext : Bytes := c.gcmSeal keys.key (p.nonce keys.iv) p.plaintext p.header

/-- The header-protection mask of the sample that starts four bytes after the packet number
offset. -/
def mask : Bytes :=
  c.aesEncrypt keys.hp (((p.packetNumber ++ p.ciphertext c keys).drop 4).take 16)

/-- Byte 0 as sent: a long header protects its low four bits. -/
def protectedFirstByte : UInt8 := p.firstByte ^^^ ((p.mask c keys).headD 0 &&& 0x0f)

def protectedPacketNumber : Bytes :=
  List.zipWith (· ^^^ ·) p.packetNumber ((p.mask c keys).drop 1)

/-- **`datagram`** — the packet on the wire, followed by whatever is coalesced behind it. -/
def datagram (coalesced : Bytes) : Bytes :=
  p.protectedFirstByte c keys :: p.middle
    ++ ((p.protectedPacketNumber c keys ++ p.ciphertext c keys) ++ coalesced)

/-- **`Authentic`** — the AEAD on this packet's ciphertext: `Open` returns the plaintext under the
key, nonce and additional data it was sealed with, and fails under all others. -/
def Authentic : Prop :=
  ∀ key nonce aad, c.gcmOpen key nonce (p.ciphertext c keys) aad =
    if key = keys.key ∧ nonce = p.nonce keys.iv ∧ aad = p.header then some p.plaintext else none

/-! ## Sizes -/

@[simp] theorem packetNumber_length : p.packetNumber.length = p.pnLen := beBytes_length _ _

@[simp] theorem ciphertext_length :
    (p.ciphertext c keys).length = p.plaintext.length + tagSize := c.gcmSeal_length _ _ _ _

@[simp] theorem mask_length : (p.mask c keys).length = 16 := c.aesEncrypt_length _ _

@[simp] theorem protectedPacketNumber_length :
    (p.protectedPacketNumber c keys).length = p.pnLen := by
  have h4 := p.pnLen_le
  simp only [protectedPacketNumber, List.length_zipWith, packetNumber_length, List.length_drop,
    mask_length]
  omega

end ClientInitial

/-! ## Byte strings under XOR -/

theorem zipWith_xor_cancel (xs ks : Bytes) (h : xs.length ≤ ks.length) :
    List.zipWith (· ^^^ ·) (List.zipWith (· ^^^ ·) xs ks) ks = xs := by
  induction xs generalizing ks with
  | nil => simp
  | cons x xs ih =>
    cases ks with
    | nil => simp at h
    | cons k ks =>
      simp only [List.zipWith_cons_cons, UInt8.xor_assoc, UInt8.xor_self, UInt8.xor_zero]
      rw [ih ks (by simpa using h)]

theorem zipWith_xor_zeros (xs : Bytes) :
    List.zipWith (· ^^^ ·) xs (List.replicate xs.length (0 : UInt8)) = xs := by
  induction xs with
  | nil => rfl
  | cons x xs ih =>
    simp only [List.length_cons, List.replicate_succ, List.zipWith_cons_cons, UInt8.xor_zero, ih]

/-- A number that fits `n` bytes is left-padded with zeros. -/
theorem beBytes_pad {n x : Nat} (h : x < 256 ^ n) (m : Nat) :
    beBytes (m + n) x = List.replicate m 0 ++ beBytes n x := by
  induction m with
  | zero => simp
  | succ m ih =>
    have hle : 256 ^ n ≤ 256 ^ (m + n) := Nat.pow_le_pow_right (by norm_num) (by omega)
    have hzero : x / 256 ^ (m + n) = 0 := Nat.div_eq_of_lt (by omega)
    rw [Nat.add_right_comm, beBytes, ih, hzero, List.replicate_succ, List.cons_append]
    rfl

/-! ## The inverse of each step of the sender -/

/-- `unmask` XORs a stretch of the payload with the mask, shifted by one. -/
theorem unmask_eq {payload mask : Bytes} {i k : Nat} (hp : i + k ≤ payload.length)
    (hm : 1 + i + k ≤ mask.length) :
    unmask payload mask i k =
      .ok (List.zipWith (· ^^^ ·) ((payload.drop i).take k) (mask.drop (1 + i))) := by
  induction k generalizing i with
  | zero => simp [unmask]
  | succ k ih =>
    have hi : i < payload.length := by omega
    have hj : 1 + i < mask.length := by omega
    rw [unmask, index_eq_ok (List.getElem?_eq_getElem hi), Scan.ok_bind,
      index_eq_ok (List.getElem?_eq_getElem hj), Scan.ok_bind, ih (by omega) (by omega),
      Scan.ok_bind, List.drop_eq_getElem_cons hi, List.drop_eq_getElem_cons hj,
      List.take_succ_cons, List.zipWith_cons_cons]
    rfl

/-- `xorPacketNumber` works from the last byte backwards.  The induction is on the bytes `xs` still
to be done, `post` are done. -/
theorem xorPacketNumber_eq (pre xs zs post done : Bytes) (hlen : xs.length = zs.length)
    (hdone : done.length = post.length) (h12 : pre.length + xs.length + post.length = 12) :
    xorPacketNumber (zs ++ done) post.length xs.length (pre ++ xs ++ post) =
      .ok (pre ++ List.zipWith (· ^^^ ·) xs zs ++ post) := by
  induction xs using List.reverseRecOn generalizing zs post done with
  | nil =>
    obtain rfl : zs = [] := List.eq_nil_of_length_eq_zero (by simpa using hlen.symm)
    simp [xorPacketNumber]
  | append_singleton xs x ih =>
    obtain ⟨zs, z, rfl⟩ : ∃ zs' z, zs = zs' ++ [z] := by
      rcases List.eq_nil_or_concat zs with rfl | ⟨zs', z, rfl⟩
      · simp at hlen
      · exact ⟨zs', z, by simp⟩
    have hl : xs.length = zs.length := by simpa using hlen
    have h12' : pre.length + xs.length + 1 + post.length = 12 := by
      simp only [List.length_append, List.length_singleton] at h12
      omega
    have hx : (pre ++ (xs ++ [x]) ++ post)[11 - post.length]? = some x := by
      have hpos : 11 - post.length = (pre ++ xs).length := by
        simp only [List.length_append]
        omega
      rw [hpos, ← List.append_assoc, List.append_assoc (pre ++ xs) [x]]
      simp
    have hz : (zs ++ [z] ++ done)[(zs ++ [z] ++ done).length - 1 - post.length]? = some z := by
      have hpos : (zs ++ [z] ++ done).length - 1 - post.length = zs.length := by
        simp only [List.length_append, List.length_singleton]
        omega
      rw [hpos, List.append_assoc]
      simp
    have hset : (pre ++ (xs ++ [x]) ++ post).set (11 - post.length) (x ^^^ z)
        = pre ++ xs ++ ((x ^^^ z) :: post) := by
      have hpos : 11 - post.length = (pre ++ xs).length := by
        simp only [List.length_append]
        omega
      rw [hpos, ← List.append_assoc, List.append_assoc (pre ++ xs) [x]]
      simp
    have hstep := ih zs ((x ^^^ z) :: post) (z :: done) hl
      (by simp [hdone]) (by simp only [List.length_cons]; omega)
    rw [List.length_append, List.length_singleton, xorPacketNumber, index_eq_ok hx, Scan.ok_bind,
      index_eq_ok hz, Scan.ok_bind, hset, List.append_assoc zs]
    rw [List.length_cons, List.singleton_append] at *
    rw [hstep, List.zipWith_append hl]
    simp

/-- The nonce of the receiver is the nonce of the sender. -/
theorem xorPacketNumber_nonce (p : ClientInitial) {iv : Bytes} (hiv : iv.length = 12) :
    xorPacketNumber p.packetNumber 0 p.pnLen iv = .ok (p.nonce iv) := by
  have h4 := p.pnLen_le
  set pre := iv.take (12 - p.pnLen) with hpre
  set xs := iv.drop (12 - p.pnLen) with hxs
  have hsplit : iv = pre ++ xs := (List.take_append_drop _ _).symm
  have hprel : pre.length = 12 - p.pnLen := by
    rw [hpre, List.length_take]
    omega
  have hxsl : xs.length = p.pnLen := by
    rw [hxs, List.length_drop]
    omega
  have hrun := xorPacketNumber_eq pre xs p.packetNumber [] []
    (by simp [hxsl]) rfl (by simp only [List.length_nil]; omega)
  have hnonce : p.nonce iv = pre ++ List.zipWith (· ^^^ ·) xs p.packetNumber := by
    have h12 : 12 = (12 - p.pnLen) + p.pnLen := by omega
    rw [ClientInitial.nonce, h12, beBytes_pad p.pn_lt, hsplit,
      List.zipWith_append (by simp [hprel]), ← hprel, zipWith_xor_zeros]
    rfl
  rw [hnonce, hsplit]
  simpa [hxsl] using hrun

/-- The additional data is the header with its first byte and its packet number replaced. -/
theorem additionalData_eq (b b' : UInt8) (mid sent rest pn : Bytes) (h : pn.length = sent.length) :
    additionalData (b :: mid ++ (sent ++ rest)) (mid.length + 1) sent.length b' pn =
      .ok (b' :: mid ++ pn) := by
  have hs : slice (b :: mid ++ (sent ++ rest)) 0 (mid.length + 1 + sent.length)
      = .ok (b :: mid ++ sent) :=
    slice_append [] _ (by simp; rfl) rfl (by simp; omega)
  have hcopy : goCopy (List.replicate (mid.length + 1 + sent.length) 0) (b :: mid ++ sent)
      = b :: mid ++ sent := goCopy_of_length_eq (by simp; omega)
  have htail : sliceFrom (b' :: mid ++ sent) (mid.length + 1) = .ok sent :=
    sliceFrom_append rfl rfl
  have hset : (b :: mid ++ sent).set 0 b' = b' :: mid ++ sent := rfl
  unfold additionalData
  rw [hs, Scan.ok_bind]
  simp only [hcopy, hset]
  rw [htail, Scan.ok_bind, goCopy_of_length_eq h]
  simp

/-- What byte 0 looks like once masked, over all packet number lengths and all mask bytes: still a
long header of type Initial, unmasked to the right packet number length, and unmasked to the byte
that was protected exactly when bit 4 of the mask byte is clear. -/
theorem firstByte_cases : ∀ k < 4, ∀ n < 256,
    let first : UInt8 := 0xc0 ||| UInt8.ofNat k
    let m := UInt8.ofNat n
    let sent := first ^^^ (m &&& 0x0f)
    sent &&& 0x80 ≠ 0 ∧ (sent &&& 0x30) >>> 4 = initialPacketType ∧
      ((sent ^^^ (m &&& 0x1f)) &&& 0x03).toNat = k ∧
      (sent ^^^ (m &&& 0x1f) = first ↔ m &&& 0x10 = 0) := by
  decide +kernel

section Receiver

variable (c : Crypto) (keys : InitialKeys) (p : ClientInitial)

theorem protectedFirstByte_spec :
    p.protectedFirstByte c keys &&& 0x80 ≠ 0 ∧
      (p.protectedFirstByte c keys &&& 0x30) >>> 4 = initialPacketType ∧
      ((p.protectedFirstByte c keys ^^^ ((p.mask c keys).headD 0 &&& 0x1f)) &&& 0x03).toNat + 1
        = p.pnLen ∧
      (p.protectedFirstByte c keys ^^^ ((p.mask c keys).headD 0 &&& 0x1f) = p.firstByte ↔
        (p.mask c keys).headD 0 &&& 0x10 = 0) := by
  have hpos := p.pnLen_pos
  have hle := p.pnLen_le
  obtain ⟨h80, h30, h03, h10⟩ := firstByte_cases (p.pnLen - 1) (by omega)
    ((p.mask c keys).headD 0).toNat (UInt8.toNat_lt _)
  rw [UInt8.ofNat_toNat] at h80 h30 h03 h10
  exact ⟨h80, h30, by rw [ClientInitial.protectedFirstByte, ClientInitial.firstByte, h03]; omega,
    h10⟩

/-- **`initialHeader_datagram`** — the receiver finds the connection ID, the packet number offset
and the length that the sender wrote. -/
theorem initialHeader_datagram (coalesced : Bytes) :
    initialHeader (p.datagram c keys coalesced) =
      .ok ⟨p.dcid, p.middle.length + 1, p.length⟩ := by
  obtain ⟨h80, h30, -, -⟩ := protectedFirstByte_spec c keys p
  have hdl : (UInt8.ofNat p.dcid.length).toNat = p.dcid.length := by
    have := p.dcid_le
    rw [UInt8.toNat_ofNat']
    omega
  have hsl : (UInt8.ofNat p.scid.length).toNat = p.scid.length := by
    have := p.scid_le
    rw [UInt8.toNat_ofNat']
    omega
  set b := p.protectedFirstByte c keys
  set tail := (p.protectedPacketNumber c keys ++ p.ciphertext c keys) ++ coalesced with htail
  have htl : p.length ≤ tail.length := by
    simp only [htail, List.length_append, ClientInitial.protectedPacketNumber_length,
      ClientInitial.ciphertext_length, ClientInitial.length]
    omega
  -- the datagram, cut at each of the offsets that the receiver visits
  set len := encVarint p.lengthExp p.length ++ tail with hlen
  set tok := encVarint p.tokenExp p.token.length ++ (p.token ++ len) with htok
  set scid := UInt8.ofNat p.scid.length :: (p.scid ++ tok) with hscid
  set dcid := UInt8.ofNat p.dcid.length :: (p.dcid ++ scid) with hdcid
  have hdata : p.datagram c keys coalesced = b :: 0x00 :: 0x00 :: 0x00 :: 0x01 :: dcid := by
    simp [ClientInitial.datagram, ClientInitial.middle, b, dcid, scid, tok, len, tail]
  have hdl' : dcid.length = 1 + p.dcid.length + scid.length := by
    simp only [hdcid, List.length_cons, List.length_append]
    omega
  have hsl' : scid.length = 1 + p.scid.length + tok.length := by
    simp only [hscid, List.length_cons, List.length_append]
    omega
  have htokl : tok.length = 2 ^ p.tokenExp + p.token.length + len.length := by
    simp only [htok, List.length_append, encVarint_length]
    omega
  have hlenl : len.length = 2 ^ p.lengthExp + tail.length := by
    simp only [hlen, List.length_append, encVarint_length]
  have hte := Nat.two_pow_pos p.tokenExp
  have hle := Nat.two_pow_pos p.lengthExp
  set data := b :: 0x00 :: 0x00 :: 0x00 :: 0x01 :: dcid with hd
  have hdatal : data.length = 5 + dcid.length := by
    simp only [hd, List.length_cons]
    omega
  set toDcid : Bytes := [b, 0x00, 0x00, 0x00, 0x01, UInt8.ofNat p.dcid.length] with htoDcid
  set toScid := toDcid ++ p.dcid with htoScid
  set toTok := toScid ++ UInt8.ofNat p.scid.length :: p.scid with htoTok
  set toLen := toTok ++ (encVarint p.tokenExp p.token.length ++ p.token) with htoLen
  have hdcidAt : data = toDcid ++ (p.dcid ++ scid) := rfl
  have hscidAt : data = toScid ++ UInt8.ofNat p.scid.length :: (p.scid ++ tok) := by
    simp [hdcidAt, htoScid, hscid]
  have htokAt : data = toTok ++ tok := by simp [hscidAt, htoTok]
  have hlenAt : data = toLen ++ len := by simp [htokAt, htoLen, htok]
  have htoScidl : toScid.length = 6 + p.dcid.length := by
    simp only [htoScid, htoDcid, List.length_append, List.length_cons, List.length_nil]
  have htoTokl : toTok.length = toScid.length + 1 + p.scid.length := by
    simp only [htoTok, List.length_append, List.length_cons]
    omega
  have htoLenl : toLen.length = toTok.length + (2 ^ p.tokenExp + p.token.length) := by
    simp only [htoLen, List.length_append, encVarint_length]
  rw [hdata]
  -- the first byte and the version
  refine Scan.bind_of_ok (refuseIf_neg (by omega)) ?_
  refine Scan.bind_of_ok (index_append (a := b) [] rfl rfl) ?_
  refine Scan.bind_of_ok (refuseIf_neg h80) ?_
  refine Scan.bind_of_ok (slice_append [b] [0x00, 0x00, 0x00, 0x01] rfl rfl rfl) ?_
  refine Scan.bind_of_ok (refuseIf_neg (by decide)) ?_
  refine Scan.bind_of_ok (refuseIf_neg (not_not_intro h30)) ?_
  -- the two connection IDs
  refine Scan.bind_of_ok (refuseIf_neg (by omega)) ?_
  refine Scan.bind_of_ok (index_append [b, 0x00, 0x00, 0x00, 0x01] hdcidAt rfl) ?_
  rw [hdl]
  refine Scan.bind_of_ok (refuseIf_neg (by omega)) ?_
  refine Scan.bind_of_ok (slice_append _ _ hdcidAt rfl rfl) ?_
  refine Scan.bind_of_ok (refuseIf_neg (by omega)) ?_
  refine Scan.bind_of_ok (index_append _ hscidAt (by omega)) ?_
  rw [hsl]
  refine Scan.bind_of_ok (refuseIf_neg (by omega)) ?_
  -- the token, and the length of the rest
  refine Scan.bind_of_ok (sliceFrom_append htokAt (by omega)) ?_
  refine Scan.bind_of_ok (readVarint_encVarint p.tokenExp_lt p.token_lt _) ?_
  refine Scan.bind_of_ok (refuseIf_neg (by omega)) ?_
  refine Scan.bind_of_ok (sliceFrom_append hlenAt (by omega)) ?_
  refine Scan.bind_of_ok (readVarint_encVarint (v := p.length) p.lengthExp_lt p.length_lt _) ?_
  refine Scan.bind_of_ok (refuseIf_neg (by omega)) ?_
  refine Scan.bind_of_ok (refuseIf_neg (by omega)) ?_
  have hmid : p.middle.length + 1 = toLen.length + 2 ^ p.lengthExp := by
    simp only [ClientInitial.middle, List.length_append, List.length_cons, List.length_nil,
      encVarint_length]
    omega
  rw [hmid, htoLenl, htoTokl, htoScidl]

/-- The sample lies behind the longest packet number, so masking the packet number does not change
it. -/
theorem hpSample_append {pn pn' ct : Bytes} (hpn : pn.length ≤ 4) (hsame : pn'.length = pn.length)
    (hlen : 20 ≤ (pn ++ ct).length) :
    hpSample (pn ++ ct) = .ok (((pn' ++ ct).drop 4).take 16) := by
  have hdrop : ∀ u : Bytes, u.length = pn.length → (u ++ ct).drop 4 = ct.drop (4 - pn.length) := by
    intro u hu
    rw [List.drop_append, List.drop_of_length_le (by omega), hu, List.nil_append]
  refine Scan.bind_of_ok (refuseIf_neg (by omega)) ?_
  rw [if_neg (by omega)]
  refine Scan.bind_of_ok (refuseIf_neg (by omega)) ?_
  rw [slice_of_le (by omega) (by omega), List.drop_take, hdrop pn rfl, hdrop pn' hsame]

/-- **`decryptInitial_datagram`** — up to the AEAD, the receiver arrives at the sender's key, nonce
and ciphertext, and at the sender's header except for the first byte. -/
theorem decryptInitial_datagram (hkeys : deriveKeys c p.dcid = .ok keys) (coalesced : Bytes) :
    decryptInitial c (p.datagram c keys coalesced) =
      aeadOpen c keys.key (p.nonce keys.iv) (p.ciphertext c keys)
        ((p.protectedFirstByte c keys ^^^ ((p.mask c keys).headD 0 &&& 0x1f)) ::
          p.middle ++ p.packetNumber) := by
  obtain ⟨keys', hkeys', hkey, hiv, hhp⟩ := deriveKeys_ok c p.dcid
  obtain rfl : keys' = keys := by
    rw [hkeys, Scan.ok.injEq] at hkeys'
    exact hkeys'.symm
  obtain ⟨-, -, hpnLen, -⟩ := protectedFirstByte_spec c keys' p
  have hpos := p.pnLen_pos
  have h4 := p.pnLen_le
  have hge := p.payload_ge
  set sent := p.protectedPacketNumber c keys' with hsent
  set ct := p.ciphertext c keys' with hct
  have hsentl : sent.length = p.pnLen := p.protectedPacketNumber_length c keys'
  have hctl : ct.length = p.plaintext.length + tagSize := p.ciphertext_length c keys'
  have hpayl : (sent ++ ct).length = p.length := by
    rw [List.length_append, hsentl, hctl, ClientInitial.length]
    omega
  have hlen : p.length = p.pnLen + p.plaintext.length + tagSize := rfl
  have hsample : hpSample (sent ++ ct) = .ok (((p.packetNumber ++ ct).drop 4).take 16) :=
    hpSample_append (by omega) (by rw [p.packetNumber_length, hsentl]) (by omega)
  have hmask : c.aesEncrypt keys'.hp (((p.packetNumber ++ ct).drop 4).take 16)
      = p.mask c keys' := rfl
  have hmaskl := p.mask_length c keys'
  have hmask0 : (p.mask c keys')[0]? = some ((p.mask c keys').headD 0) := by
    cases hm : p.mask c keys' with
    | nil => simp [hm] at hmaskl
    | cons m ms => rfl
  have hpn : unmask (sent ++ ct) (p.mask c keys') 0 p.pnLen = .ok p.packetNumber := by
    rw [unmask_eq (by omega) (by omega), List.drop_zero, List.take_left' hsentl, hsent]
    exact congrArg Scan.ok (zipWith_xor_cancel _ _ (by simp; omega))
  have haad : ∀ b', additionalData (p.datagram c keys' coalesced) (p.middle.length + 1) p.pnLen b'
      p.packetNumber = .ok (b' :: p.middle ++ p.packetNumber) := by
    intro b'
    have happ := additionalData_eq (p.protectedFirstByte c keys') b' p.middle sent
      (ct ++ coalesced) p.packetNumber (by simp [hsentl])
    rw [hsentl, ← List.append_assoc sent] at happ
    exact happ
  -- the header, the payload and the keys
  refine Scan.bind_of_ok (initialHeader_datagram c keys' p coalesced) ?_
  refine Scan.bind_of_ok (a := sent ++ ct) (slice_append _ _ rfl (by simp) (by rw [hpayl])) ?_
  refine Scan.bind_of_ok hkeys ?_
  refine Scan.bind_of_ok (refuseIf_neg (not_not_intro (Or.inl hhp))) ?_
  -- header protection
  refine Scan.bind_of_ok hsample ?_
  rw [hmask]
  refine Scan.bind_of_ok (index_append [] rfl rfl) ?_
  refine Scan.bind_of_ok (index_eq_ok hmask0) ?_
  simp only [hpnLen]
  refine Scan.bind_of_ok (refuseIf_neg (by omega)) ?_
  refine Scan.bind_of_ok hpn ?_
  -- the nonce, the associated data and the ciphertext
  rw [goCopy_of_length_eq (by simp [hiv])]
  refine Scan.bind_of_ok (xorPacketNumber_nonce p hiv) ?_
  refine Scan.bind_of_ok (refuseIf_neg (not_not_intro (Or.inl hkey))) ?_
  refine Scan.bind_of_ok (haad _) ?_
  refine Scan.bind_of_ok (sliceFrom_append rfl hsentl.symm) ?_
  exact Scan.bind_of_ok (refuseIf_neg (by omega)) rfl

/-- **`extractSNI_datagram_iff`** — `extractSNI` recovers what the frame parser sees in the
plaintext exactly when bit 4 of the first mask byte is clear, or there is nothing to recover. -/
theorem extractSNI_datagram_iff (hkeys : deriveKeys c p.dcid = .ok keys)
    (hauth : p.Authentic c keys) (coalesced : Bytes) :
    extractSNI c (p.datagram c keys coalesced) = parseCryptoFrames p.plaintext ↔
      (p.mask c keys).headD 0 &&& 0x10 = 0 ∨ parseCryptoFrames p.plaintext = .reject := by
  obtain ⟨keys', hkeys', -, hiv, -⟩ := deriveKeys_ok c p.dcid
  obtain rfl : keys' = keys := by
    rw [hkeys, Scan.ok.injEq] at hkeys'
    exact hkeys'.symm
  obtain ⟨-, -, -, hbit⟩ := protectedFirstByte_spec c keys' p
  have hnonce : ¬ (p.nonce keys'.iv).length ≠ 12 := by
    simp [ClientInitial.nonce, hiv]
  rw [extractSNI, decryptInitial_datagram c keys' p hkeys, aeadOpen, if_neg hnonce, hauth]
  by_cases hm : (p.mask c keys').headD 0 &&& 0x10 = 0
  · have hheader := congrArg (· :: p.middle ++ p.packetNumber) (hbit.mpr hm)
    rw [if_pos ⟨rfl, rfl, hheader⟩]
    exact iff_of_true rfl (Or.inl hm)
  · have hheader : ¬ _ :: p.middle ++ p.packetNumber = p.header := fun h =>
      hm (hbit.mp (List.head_eq_of_cons_eq h))
    rw [if_neg fun h => hheader h.2.2]
    simp only [hm, false_or]
    exact eq_comm

end Receiver

/-! ## A packet whose mask has bit 4 set -/

/-- Primitives whose mask is constant with first byte `m`, and whose AEAD opens everything that
carries the right key, nonce and header. -/
def maskCrypto (m : UInt8) (key nonce header : Bytes) : Crypto where
  hmac _ _ := List.replicate 32 0
  hmac_length := zeroHmac_length
  aesEncrypt _ _ := m :: List.replicate 15 0
  aesEncrypt_length _ _ := by simp
  gcmSeal _ _ text _ := text ++ List.replicate 16 0
  gcmSeal_length := zeroSeal_length
  gcmOpen key' nonce' text header' :=
    if key' = key ∧ nonce' = nonce ∧ header' = header then some (text.take (text.length - 16))
    else none

/-- A CRYPTO frame that carries a ClientHello for the host `a`. -/
def helloFrame : Bytes :=
  [0x06, 0x00, 0x36, 0x01, 0x00, 0x00, 0x32] ++ List.replicate 34 0
    ++ [0x00, 0x00, 0x00, 0x00, 0x00, 0x0a]
    ++ [0x00, 0x00, 0x00, 0x06, 0x00, 0x04, 0x00, 0x00, 0x01, 0x61]

/-- An Initial packet with empty connection IDs and packet number 0. -/
def helloInitial : ClientInitial where
  dcid := []
  scid := []
  token := []
  pnLen := 1
  pn := 0
  tokenExp := 0
  lengthExp := 1
  plaintext := helloFrame
  dcid_le := by decide
  scid_le := by decide
  pnLen_pos := by decide
  pnLen_le := by decide
  pn_lt := by decide
  tokenExp_lt := by decide
  token_lt := by decide
  lengthExp_lt := by decide
  length_lt := by decide
  payload_ge := by decide

def zeroKeys : InitialKeys := ⟨List.replicate 16 0, List.replicate 12 0, List.replicate 16 0⟩

def helloCrypto (m : UInt8) : Crypto :=
  maskCrypto m zeroKeys.key (helloInitial.nonce zeroKeys.iv) helloInitial.header

theorem helloCrypto_keys (m : UInt8) : deriveKeys (helloCrypto m) helloInitial.dcid = .ok zeroKeys :=
  rfl

theorem helloCrypto_authentic (m : UInt8) : helloInitial.Authentic (helloCrypto m) zeroKeys := by
  intro key nonce aad
  rfl

theorem extractSNI_helloInitial_iff :
    extractSNI (helloCrypto 0x0f) (helloInitial.datagram (helloCrypto 0x0f) zeroKeys [0x00]) =
        parseCryptoFrames helloFrame ↔
      (helloInitial.mask (helloCrypto 0x0f) zeroKeys).headD 0 &&& 0x10 = 0 ∨
        parseCryptoFrames helloFrame = .reject :=
  extractSNI_datagram_iff (helloCrypto 0x0f) zeroKeys helloInitial (helloCrypto_keys _)
    (helloCrypto_authentic _) [0x00]

/-- With mask byte 0x10 a well-formed Initial packet with a host name is refused. -/
theorem extractSNI_loses_helloInitial :
    ¬ ∀ (c : Crypto) (keys : InitialKeys) (p : ClientInitial), deriveKeys c p.dcid = .ok keys →
      p.Authentic c keys → ∀ coalesced,
      extractSNI c (p.datagram c keys coalesced) = parseCryptoFrames p.plaintext := by
  intro hclaim
  have hsame := hclaim (helloCrypto 0x10) zeroKeys helloInitial (helloCrypto_keys _)
    (helloCrypto_authentic _) []
  have hlost : extractSNI (helloCrypto 0x10)
      (helloInitial.datagram (helloCrypto 0x10) zeroKeys []) = .reject := by decide
  have hname : parseCryptoFrames helloInitial.plaintext = .ok [0x61] := by decide +kernel
  rw [hlost, hname] at hsame
  nomatch hsame

end ProxyGateway.Quic
