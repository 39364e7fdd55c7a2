/-
# ProxyGateway.Quic.Initial — `extractSNI`: from a UDP datagram to a host name

`extractSNI` recognises a QUIC v1 client Initial packet, derives the Initial keys from its
destination connection ID, removes header protection, opens the AEAD and hands the plaintext to
`parseCryptoFrames`.  HMAC, one AES block and AES-GCM are library code and enter as the fields of
`Crypto`; the lengths of their outputs are part of the structure.  HKDF itself is in the source and
is modelled.

The Go function is cut where the two inputs of an attacker meet: `decryptInitial` is everything up
to `aead.Open`, `extractSNI` passes what it returned to the frame parser.  `decryptInitial_safe`
bounds every offset of the first half; with `parseCryptoFrames_panic_iff` this settles which
datagrams can panic the process (`extractSNI_returns_iff`).
-/
import ProxyGateway.Quic.Frames

namespace ProxyGateway.Quic

open ProxyGateway.Lang

/-! ## Constants and library functions -/

def quicVersion1 : Nat := 0x00000001
def initialPacketType : UInt8 := 0x00
def tagSize : Nat := 16

def initialSaltV1 : Bytes :=
  [0x38, 0x76, 0x2c, 0xf7, 0xf5, 0x59, 0x34, 0xb3, 0x4d, 0x17,
   0x9a, 0xe6, 0xa4, 0xc8, 0x0c, 0xad, 0xcc, 0xbb, 0x7f, 0x0a]

/-- The bytes of an ASCII string constant. -/
def ascii (s : String) : Bytes := s.toList.map fun c => UInt8.ofNat c.toNat

/-- The library primitives: HMAC-SHA256, the AES block function, and AES-GCM in both directions
(arguments in Go's order: nonce, text, additional data). -/
structure Crypto where
  hmac : Bytes → Bytes → Bytes
  hmac_length : ∀ key msg, (hmac key msg).length = 32
  aesEncrypt : Bytes → Bytes → Bytes
  aesEncrypt_length : ∀ key block, (aesEncrypt key block).length = 16
  gcmSeal : Bytes → Bytes → Bytes → Bytes → Bytes
  gcmSeal_length : ∀ key nonce text aad, (gcmSeal key nonce text aad).length = text.length + tagSize
  gcmOpen : Bytes → Bytes → Bytes → Bytes → Option Bytes

/-- `aes.NewCipher` succeeds on 16, 24 and 32 byte keys. -/
def aesKeySize (key : Bytes) : Prop := key.length = 16 ∨ key.length = 24 ∨ key.length = 32

instance (key : Bytes) : Decidable (aesKeySize key) :=
  inferInstanceAs (Decidable (_ ∨ _ ∨ _))

/-- `aead.Open(nil, nonce, ciphertext, aad)`: GCM panics on a nonce that is not 12 bytes long. -/
def aeadOpen (c : Crypto) (key nonce ciphertext aad : Bytes) : Scan Bytes :=
  if nonce.length ≠ 12 then .panic
  else match c.gcmOpen key nonce ciphertext aad with
    | some plaintext => .ok plaintext
    | none => .reject

/-! ## HKDF -/

def hkdfExtract (c : Crypto) (salt ikm : Bytes) : Bytes := c.hmac salt ikm

/-- The loop of `hkdfExpand`: `n` blocks are left, the next one has counter `i`. -/
def hkdfBlocks (c : Crypto) (prk info : Bytes) : (n i : Nat) → (prev okm : Bytes) → Bytes
  | 0, _, _, okm => okm
  | n + 1, i, prev, okm =>
    let block := c.hmac prk (prev ++ info ++ [UInt8.ofNat i])
    hkdfBlocks c prk info n (i + 1) block (okm ++ block)

def hkdfExpand (c : Crypto) (prk info : Bytes) (length : Nat) : Scan Bytes :=
  slice (hkdfBlocks c prk info ((length + 32 - 1) / 32) 1 [] []) 0 length

def hkdfExpandLabel (c : Crypto) (secret : Bytes) (label : String) (context : Bytes)
    (length : Nat) : Scan Bytes :=
  let qlabel := ascii "tls13 " ++ ascii label
  let lbl := [UInt8.ofNat (length >>> 8), UInt8.ofNat length, UInt8.ofNat qlabel.length] ++ qlabel
    ++ [UInt8.ofNat context.length] ++ context
  hkdfExpand c secret lbl length

/-- The client's Initial keys. -/
structure InitialKeys where
  key : Bytes
  iv : Bytes
  hp : Bytes
  deriving DecidableEq, Repr

def deriveKeys (c : Crypto) (dcid : Bytes) : Scan InitialKeys := do
  let initialSecret := hkdfExtract c initialSaltV1 dcid
  let clientInitialSecret ← hkdfExpandLabel c initialSecret "client in" [] 32
  let key ← hkdfExpandLabel c clientInitialSecret "quic key" [] 16
  let iv ← hkdfExpandLabel c clientInitialSecret "quic iv" [] 12
  let hp ← hkdfExpandLabel c clientInitialSecret "quic hp" [] 16
  .ok ⟨key, iv, hp⟩

/-! ## The packet -/

/-- What the unprotected part of the header gives: the connection ID, the offset of the packet
number and the value of the Length field. -/
structure InitialHeader where
  dcid : Bytes
  off : Nat
  length : Nat
  deriving DecidableEq, Repr

/-- `extractSNI` up to `protected := data[off : off+int(length)]`. -/
def initialHeader (data : Bytes) : Scan InitialHeader := do
  refuseIf (data.length < 5)
  let b0 ← index data 0
  refuseIf (b0 &&& 0x80 = 0)
  let version ← slice data 1 5
  refuseIf (beNat version ≠ quicVersion1)
  refuseIf ((b0 &&& 0x30) >>> 4 ≠ initialPacketType)
  let off := 5
  refuseIf (data.length < off + 1)
  let dcidLen ← index data off
  let off := off + 1
  refuseIf (data.length < off + dcidLen.toNat)
  let dcid ← slice data off (off + dcidLen.toNat)
  let off := off + dcidLen.toNat
  refuseIf (data.length < off + 1)
  let scidLen ← index data off
  let off := off + 1
  refuseIf (data.length < off + scidLen.toNat)
  let off := off + scidLen.toNat
  let rest ← sliceFrom data off
  let (tokenLen, n) ← readVarint rest
  refuseIf (n = 0 ∨ data.length < off + n + tokenLen)
  let off := off + (n + tokenLen)
  let rest ← sliceFrom data off
  let (length, n) ← readVarint rest
  refuseIf (n = 0 ∨ data.length - off < length)
  let off := off + n
  refuseIf (data.length < off + length)
  .ok ⟨dcid, off, length⟩

/-- The 16 bytes sampled for header protection. -/
def hpSample (payload : Bytes) : Scan Bytes := do
  refuseIf (payload.length < 5)
  let sampleOffset := if payload.length < 4 + 16 then 0 else 4
  refuseIf (payload.length < sampleOffset + 16)
  slice payload sampleOffset (sampleOffset + 16)

/-- `packetNumber[i] = protected[i] ^ mask[1+i]` for the `k` indices from `i` on. -/
def unmask (payload mask : Bytes) : (i k : Nat) → Scan Bytes
  | _, 0 => .ok []
  | i, k + 1 => do
    let p ← index payload i
    let m ← index mask (1 + i)
    let rest ← unmask payload mask (i + 1) k
    .ok ((p ^^^ m) :: rest)

/-- `nonce[11-i] ^= packetNumber[pnLen-1-i]` for the `k` indices from `i` on. -/
def xorPacketNumber (packetNumber : Bytes) : (i k : Nat) → (nonce : Bytes) → Scan Bytes
  | _, 0, nonce => .ok nonce
  | i, k + 1, nonce => do
    let a ← index nonce (11 - i)
    let b ← index packetNumber (packetNumber.length - 1 - i)
    xorPacketNumber packetNumber (i + 1) k (nonce.set (11 - i) (a ^^^ b))

/-- The additional data: the header with its first byte and packet number unmasked. -/
def additionalData (data : Bytes) (off pnLen : Nat) (firstByte : UInt8) (packetNumber : Bytes) :
    Scan Bytes := do
  let header ← slice data 0 (off + pnLen)
  let aad := (goCopy (List.replicate (off + pnLen) 0) header).set 0 firstByte
  let tail ← sliceFrom aad off
  .ok (aad.take off ++ goCopy tail packetNumber)

/-- `extractSNI` up to and including `aead.Open`.  The decoded packet number `pn` is not modelled:
the source computes it and never uses it. -/
def decryptInitial (c : Crypto) (data : Bytes) : Scan Bytes := do
  let h ← initialHeader data
  let payload ← slice data h.off (h.off + h.length)
  let keys ← deriveKeys c h.dcid
  refuseIf (¬ aesKeySize keys.hp)
  let sample ← hpSample payload
  let mask := c.aesEncrypt keys.hp sample
  let b0 ← index data 0
  let m0 ← index mask 0
  -- five bits are unmasked here, although a long header protects only four
  let firstByte := b0 ^^^ (m0 &&& 0x1f)
  let pnLen := (firstByte &&& 0x03).toNat + 1
  refuseIf (payload.length < pnLen)
  let packetNumber ← unmask payload mask 0 pnLen
  let nonce ← xorPacketNumber packetNumber 0 pnLen (goCopy (List.replicate 12 0) keys.iv)
  refuseIf (¬ aesKeySize keys.key)
  let aad ← additionalData data h.off pnLen firstByte packetNumber
  let ciphertext ← sliceFrom payload pnLen
  refuseIf (ciphertext.length < tagSize)
  aeadOpen c keys.key nonce ciphertext aad

/-- **`extractSNI`**. -/
def extractSNI (c : Crypto) (data : Bytes) : Scan Bytes := do
  let plaintext ← decryptInitial c data
  parseCryptoFrames plaintext

/-! ## Key derivation always succeeds -/

variable (c : Crypto)

theorem hkdfBlocks_length (prk info : Bytes) (n i : Nat) (prev okm : Bytes) :
    (hkdfBlocks c prk info n i prev okm).length = okm.length + 32 * n := by
  induction n generalizing i prev okm with
  | zero => simp [hkdfBlocks]
  | succ n ih =>
    simp only [hkdfBlocks, ih, List.length_append, c.hmac_length]
    omega

theorem hkdfExpandLabel_ok (secret : Bytes) (label : String) (context : Bytes) (length : Nat) :
    ∃ okm, hkdfExpandLabel c secret label context length = .ok okm ∧ okm.length = length := by
  have hlen : length ≤ 0 + 32 * ((length + 32 - 1) / 32) := by omega
  unfold hkdfExpandLabel hkdfExpand
  simp only
  rw [slice_of_le (Nat.zero_le _) (by rw [hkdfBlocks_length]; exact hlen)]
  refine ⟨_, rfl, ?_⟩
  rw [List.drop_zero, List.length_take, hkdfBlocks_length]
  exact Nat.min_eq_left hlen

/-- Keys exist for every connection ID, with the lengths that AES-128-GCM needs. -/
theorem deriveKeys_ok (dcid : Bytes) :
    ∃ keys, deriveKeys c dcid = .ok keys ∧ keys.key.length = 16 ∧ keys.iv.length = 12 ∧
      keys.hp.length = 16 := by
  obtain ⟨secret, hs, -⟩ :=
    hkdfExpandLabel_ok c (hkdfExtract c initialSaltV1 dcid) "client in" [] 32
  obtain ⟨key, hkey, hkl⟩ := hkdfExpandLabel_ok c secret "quic key" [] 16
  obtain ⟨iv, hiv, hil⟩ := hkdfExpandLabel_ok c secret "quic iv" [] 12
  obtain ⟨hp, hhp, hhl⟩ := hkdfExpandLabel_ok c secret "quic hp" [] 16
  refine ⟨⟨key, iv, hp⟩, ?_, hkl, hil, hhl⟩
  simp only [deriveKeys, hs, hkey, hiv, hhp, Scan.ok_bind]

/-! ## Bounds -/

theorem safe_initialHeader (data : Bytes) :
    Safe (initialHeader data) (fun h => 5 ≤ h.off ∧ h.off + h.length ≤ data.length) := by
  refine Safe.bind safe_refuseIf fun _ h5 => ?_
  refine Safe.bind (safe_index (by omega)) fun b0 _ => ?_
  refine Safe.bind safe_refuseIf fun _ _ => ?_
  refine Safe.bind (safe_slice (by omega) (by omega)) fun version _ => ?_
  refine Safe.bind safe_refuseIf fun _ _ => ?_
  refine Safe.bind safe_refuseIf fun _ _ => ?_
  refine Safe.bind safe_refuseIf fun _ hd => ?_
  refine Safe.bind (safe_index (by omega)) fun dcidLen _ => ?_
  refine Safe.bind safe_refuseIf fun _ hdc => ?_
  refine Safe.bind (safe_slice (by omega) (by omega)) fun dcid _ => ?_
  refine Safe.bind safe_refuseIf fun _ hs => ?_
  refine Safe.bind (safe_index (by omega)) fun scidLen _ => ?_
  refine Safe.bind safe_refuseIf fun _ hsc => ?_
  refine Safe.bind (safe_sliceFrom (by omega)) fun rest _ => ?_
  refine Safe.bind (safe_readVarint rest) fun ⟨tokenLen, n⟩ _ => ?_
  refine Safe.bind safe_refuseIf fun _ ht => ?_
  refine Safe.bind (safe_sliceFrom (by omega)) fun rest' _ => ?_
  refine Safe.bind (safe_readVarint rest') fun ⟨length, n'⟩ _ => ?_
  refine Safe.bind safe_refuseIf fun _ _ => ?_
  refine Safe.bind safe_refuseIf fun _ hl => ?_
  exact safe_ok ⟨by simp only; omega, by simp only; omega⟩

theorem safe_hpSample (payload : Bytes) :
    Safe (hpSample payload) (fun sample => sample.length = 16) := by
  refine Safe.bind safe_refuseIf fun _ _ => ?_
  refine Safe.bind safe_refuseIf fun _ hs => ?_
  exact (safe_slice (by omega) (by omega)).mono fun _ hlen => by omega

theorem safe_unmask {payload mask : Bytes} {i k : Nat} (hp : i + k ≤ payload.length)
    (hm : 1 + i + k ≤ mask.length) :
    Safe (unmask payload mask i k) (fun pn => pn.length = k) := by
  induction k generalizing i with
  | zero => exact safe_ok rfl
  | succ k ih =>
    refine Safe.bind (safe_index (by omega)) fun p _ => ?_
    refine Safe.bind (safe_index (by omega)) fun m _ => ?_
    refine Safe.bind (ih (by omega) (by omega)) fun rest hrest => ?_
    exact safe_ok (by simp [hrest])

theorem safe_xorPacketNumber {packetNumber nonce : Bytes} {i k : Nat} (hn : nonce.length = 12)
    (hk : i + k ≤ packetNumber.length) :
    Safe (xorPacketNumber packetNumber i k nonce) (fun r => r.length = 12) := by
  induction k generalizing i nonce with
  | zero => exact safe_ok hn
  | succ k ih =>
    refine Safe.bind (safe_index (by omega)) fun a _ => ?_
    refine Safe.bind (safe_index (by omega)) fun b _ => ?_
    exact ih (by simp [hn]) (by omega)

theorem safe_additionalData {data : Bytes} {off pnLen : Nat} (h : off + pnLen ≤ data.length)
    (firstByte : UInt8) (packetNumber : Bytes) :
    Safe (additionalData data off pnLen firstByte packetNumber) (fun _ => True) := by
  refine Safe.bind (safe_slice (by omega) h) fun header _ => ?_
  refine Safe.bind (safe_sliceFrom (by simp)) fun tail _ => ?_
  exact safe_ok trivial

/-- **`decryptInitial_safe`** — no datagram makes the decryption half panic, whatever the AEAD
answers. -/
theorem decryptInitial_safe (data : Bytes) : Safe (decryptInitial c data) (fun _ => True) := by
  refine Safe.bind (safe_initialHeader data) fun h ⟨h5, hlen⟩ => ?_
  refine Safe.bind (safe_slice (by omega) hlen) fun payload hpl => ?_
  obtain ⟨keys, hkeys, -, hiv, -⟩ := deriveKeys_ok c h.dcid
  rw [hkeys, Scan.ok_bind]
  refine Safe.bind safe_refuseIf fun _ _ => ?_
  refine Safe.bind (safe_hpSample payload) fun sample _ => ?_
  have hmask := c.aesEncrypt_length keys.hp sample
  refine Safe.bind (safe_index (by omega)) fun b0 _ => ?_
  refine Safe.bind (safe_index (by omega)) fun m0 _ => ?_
  have hpn : ((b0 ^^^ (m0 &&& 0x1f)) &&& 0x03).toNat ≤ 3 := by
    rw [UInt8.toNat_and]
    exact Nat.and_le_right
  refine Safe.bind safe_refuseIf fun _ hpay => ?_
  refine Safe.bind (safe_unmask (by omega) (by omega)) fun packetNumber hpnl => ?_
  refine Safe.bind (safe_xorPacketNumber (by simp) (by omega)) fun nonce hnonce => ?_
  refine Safe.bind safe_refuseIf fun _ _ => ?_
  refine Safe.bind (safe_additionalData (by omega) _ _) fun aad _ => ?_
  refine Safe.bind (safe_sliceFrom (by omega)) fun ciphertext _ => ?_
  refine Safe.bind safe_refuseIf fun _ _ => ?_
  unfold aeadOpen
  rw [if_neg (not_not_intro hnonce)]
  cases c.gcmOpen keys.key nonce ciphertext aad with
  | none => exact safe_reject
  | some plaintext => exact safe_ok trivial

/-! ## Which datagrams panic the proxy -/

/-- **`extractSNI_returns_iff`** — `extractSNI` returns normally exactly when the plaintext that the
AEAD hands back (if any) does not lead the frame walk to a CRYPTO frame whose data length overruns
the plaintext by at most the size of its own length field. -/
theorem extractSNI_returns_iff (data : Bytes) :
    extractSNI c data ≠ .panic ↔
      ∀ plaintext, decryptInitial c data = .ok plaintext →
        ¬ ∃ off, WalkReaches plaintext off ∧ CryptoOverrun plaintext off := by
  have hsafe := (decryptInitial_safe c data).ne_panic
  unfold extractSNI
  rw [Ne, Scan.bind_eq_panic]
  constructor
  · intro h plaintext hp ho
    exact h (Or.inr ⟨plaintext, hp, parseCryptoFrames_panic_iff.mpr ho⟩)
  · rintro h (hp | ⟨plaintext, hp, hpanic⟩)
    · exact hsafe hp
    · exact h plaintext hp (parseCryptoFrames_panic_iff.mp hpanic)

theorem zeroHmac_length (_ _ : Bytes) : (List.replicate 32 (0 : UInt8)).length = 32 :=
  List.length_replicate

theorem zeroSeal_length (_ _ text _ : Bytes) :
    (text ++ List.replicate 16 (0 : UInt8)).length = text.length + tagSize := by
  rw [List.length_append, List.length_replicate]
  rfl

/-- Primitives whose AEAD accepts everything and returns a CRYPTO frame that announces one byte of
data and carries none. -/
def overrunCrypto : Crypto where
  hmac _ _ := List.replicate 32 0
  hmac_length := zeroHmac_length
  aesEncrypt _ _ := List.replicate 16 0
  aesEncrypt_length _ _ := by simp
  gcmSeal _ _ text _ := text ++ List.replicate 16 0
  gcmSeal_length := zeroSeal_length
  gcmOpen _ _ _ _ := some [0x06, 0x00, 0x01]

/-- A well-formed Initial packet: no connection IDs, no token, Length 20. -/
def shortInitial : Bytes :=
  [0xc0, 0x00, 0x00, 0x00, 0x01, 0x00, 0x00, 0x00, 0x14] ++ List.replicate 20 0

theorem extractSNI_panics_on_overrun :
    ¬ ∀ (c : Crypto) (data : Bytes), extractSNI c data ≠ .panic := by
  have hpanic : extractSNI overrunCrypto shortInitial = .panic := by decide +kernel
  intro hclaim
  exact hclaim overrunCrypto shortInitial hpanic

end ProxyGateway.Quic
