/-
# ProxyGateway.Quic.Work — how much work one plaintext can cause

The plaintext of an Initial packet is the attacker's.  An ACK frame may announce 2^62 - 1 ranges, a
PADDING run may be as long as the packet, and the walk has seven ways to step forward.  What bounds
the work is none of these numbers but the bytes that are left: every turn of every loop either ends the
walk or pays for itself with bytes it has passed.

The functions of `ProxyGateway.Quic.Frames` and `ProxyGateway.Quic.ClientHello` are written here once
more with three counters: the bytes that are examined, the calls of `readVarint` and the turns of the
loops.  `outcome_parseCryptoFrames` says that they are the same functions.
-/
import ProxyGateway.Lang.Metered
import ProxyGateway.Quic.Frames

namespace ProxyGateway.Quic

open ProxyGateway.Lang

/-- What is counted. -/
inductive Counter where
  | bytes
  | varints
  | turns
  deriving DecidableEq, Repr

abbrev Count := Metered Counter

namespace Work

open Metered

/-! ## The functions with their counters -/

/-- `xs[i]`, examined. -/
def index (xs : Bytes) (i : Nat) : Count UInt8 := do
  charge .bytes 1
  free (Lang.index xs i)

/-- `readVarint` -/
def readVarint (buf : Bytes) : Count (Nat × Nat) := do
  charge .varints 1
  if buf.length = 0 then pure (0, 0)
  else do
    let first ← index buf 0
    let length := 1 <<< (first >>> 6).toNat
    if buf.length < length then pure (0, 0)
    else if length = 1 then pure ((first &&& 0x3f).toNat, length)
    else if length = 2 then do
      let b1 ← index buf 1
      pure ((first &&& 0x3f).toNat <<< 8 ||| b1.toNat, length)
    else if length = 4 then do
      let b1 ← index buf 1
      let b2 ← index buf 2
      let b3 ← index buf 3
      pure ((first &&& 0x3f).toNat <<< 24 ||| b1.toNat <<< 16 ||| b2.toNat <<< 8 ||| b3.toNat,
        length)
    else if length = 8 then do
      let word ← free (slice buf 0 8)
      charge .bytes 8
      pure (beNat word &&& 0x3fffffffffffffff, length)
    else pure (0, length)

/-- `binary.BigEndian.Uint16(xs[lo : lo+2])`. -/
def uint16At (xs : Bytes) (lo : Nat) : Count Nat := do
  let word ← free (slice xs lo (lo + 2))
  charge .bytes 2
  pure (beNat word)

/-- The handshake message; `data[0]` is compared a second time when it does not start a record. -/
def handshake (data : Bytes) : Count Bytes := do
  let b0 ← index data 0
  if b0 = 0x16 then do
    let recordLen ← uint16At data 3
    free (refuseIf (data.length < 5 + recordLen))
    free (slice data 5 (5 + recordLen))
  else do
    charge .bytes 1
    if b0 = 0x01 then pure data
    else free .reject

/-- The body of a `server_name` extension; the name is copied into the string that is returned. -/
def serverName (extData : Bytes) : Count Bytes := do
  free (refuseIf (extData.length < 2))
  let sniListLen ← uint16At extData 0
  free (refuseIf (extData.length - 2 < sniListLen))
  let sniData ← free (slice extData 2 ((2 + sniListLen) % 65536))
  free (refuseIf (sniData.length < 3))
  let nameType ← index sniData 0
  free (refuseIf (nameType ≠ 0x00))
  let sniLen ← uint16At sniData 1
  free (refuseIf (sniData.length - 3 < sniLen))
  let name ← free (slice sniData 3 ((3 + sniLen) % 65536))
  charge .bytes name.length
  pure name

/-- The walk over the extension block. -/
def findServerName (extensions : Bytes) (eo : Nat) : Count Bytes :=
  if _h : eo + 4 ≤ extensions.length then do
    charge .turns 1
    let extType ← uint16At extensions eo
    let extDataLen ← uint16At extensions (eo + 2)
    free (refuseIf (extensions.length < eo + 4 + extDataLen))
    let extData ← free (slice extensions (eo + 4) (eo + 4 + extDataLen))
    if extType = 0x0000 then serverName extData
    else findServerName extensions (eo + (4 + extDataLen))
  else free .reject
termination_by extensions.length - eo

/-- `extractSNIFromClientHello` -/
def extractSNIFromClientHello (data : Bytes) : Count Bytes := do
  free (refuseIf (data.length < 5))
  let hs ← handshake data
  free (refuseIf (hs.length < 4))
  let hsType ← index hs 0
  free (refuseIf (hsType ≠ 0x01))
  let hello ← free (sliceFrom hs 4)
  free (refuseIf (hello.length < 34))
  let off := 34
  free (refuseIf (hello.length < off + 1))
  let sessionIDLen ← index hello off
  let off := off + 1
  free (refuseIf (hello.length < off + sessionIDLen.toNat + 2))
  let off := off + sessionIDLen.toNat
  let csLen ← uint16At hello off
  let off := off + 2
  free (refuseIf (hello.length < off + csLen + 1))
  let off := off + csLen
  let cmLen ← index hello off
  let off := off + 1
  free (refuseIf (hello.length < off + cmLen.toNat + 2))
  let off := off + cmLen.toNat
  let extLen ← uint16At hello off
  let off := off + 2
  free (refuseIf (hello.length < off + extLen))
  let extensions ← free (slice hello off (off + extLen))
  findServerName extensions 0

/-- `v, n := readVarint(plaintext[off:]); if n == 0 { return "", false }; off += n`. -/
def varintAt (plaintext : Bytes) (off : Nat) : Count (Nat × Nat) := do
  let rest ← free (sliceFrom plaintext off)
  let (v, n) ← readVarint rest
  free (refuseIf (n = 0))
  pure (v, off + n)

/-- The inner loop of the PADDING case: the byte that ends it is examined too. -/
def skipPadding (plaintext : Bytes) (off : Nat) : Count Nat :=
  if _h : off < plaintext.length then do
    let b ← index plaintext off
    if b = 0x00 then do
      charge .turns 1
      skipPadding plaintext (off + 1)
    else pure off
  else pure off
termination_by plaintext.length - off

/-- The CRYPTO case. -/
def cryptoFrame (plaintext : Bytes) (off : Nat) : Count FrameResult := do
  let (_, off) ← varintAt plaintext off
  let rest ← free (sliceFrom plaintext off)
  let (dataLen, n) ← readVarint rest
  free (refuseIf (n = 0 ∨ plaintext.length - off < dataLen))
  let off := off + n
  let data ← free (slice plaintext off (off + dataLen))
  match ← (extractSNIFromClientHello data).attempt with
  | some sni => if sni ≠ [] then pure (.sni sni) else pure (.next (off + dataLen))
  | none => pure (.next (off + dataLen))

/-- The ACK-range loop. -/
def ackRanges (plaintext : Bytes) : Nat → Nat → Count Nat
  | 0, off => pure off
  | k + 1, off => do
    charge .turns 1
    let (_, off) ← varintAt plaintext off
    let (_, off) ← varintAt plaintext off
    ackRanges plaintext k off

/-- The three ECN counts, a loop of three turns in the source. -/
def ecnCounts (plaintext : Bytes) (off : Nat) : Count Nat := do
  charge .turns 1
  let (_, off) ← varintAt plaintext off
  charge .turns 1
  let (_, off) ← varintAt plaintext off
  charge .turns 1
  let (_, off) ← varintAt plaintext off
  pure off

/-- The case `0x01, 0x02, 0x03`. -/
def ackFrame (frameType : UInt8) (plaintext : Bytes) (off : Nat) : Count FrameResult := do
  let (_, off) ← varintAt plaintext off
  let (_, off) ← varintAt plaintext off
  let (ackRangeCount, off) ← varintAt plaintext off
  let (_, off) ← varintAt plaintext off
  let off ← ackRanges plaintext ackRangeCount off
  if frameType = 0x03 then do
    let off ← ecnCounts plaintext off
    pure (.next off)
  else pure (.next off)

/-- The optional offset field of a STREAM frame. -/
def streamOffset (frameType : UInt8) (plaintext : Bytes) (off : Nat) : Count Nat :=
  if frameType &&& 0x04 ≠ 0 then do
    let (_, off) ← varintAt plaintext off
    pure off
  else pure off

/-- The optional length field of a STREAM frame. -/
def streamLength (frameType : UInt8) (plaintext : Bytes) (off : Nat) : Count (Nat × Nat) :=
  if frameType &&& 0x02 ≠ 0 then varintAt plaintext off
  else pure (plaintext.length - off, off)

/-- A STREAM frame: its data is stepped over, not examined. -/
def streamFrame (frameType : UInt8) (plaintext : Bytes) (off : Nat) : Count FrameResult := do
  let (_, off) ← varintAt plaintext off
  let off ← streamOffset frameType plaintext off
  let (dataLen, off) ← streamLength frameType plaintext off
  free (refuseIf (plaintext.length - off < dataLen))
  pure (.next (off + dataLen))

/-- One turn of the `for` loop of `parseCryptoFrames`. -/
def frameAt (plaintext : Bytes) (off : Nat) : Count FrameResult := do
  charge .turns 1
  let frameType ← index plaintext off
  let off := off + 1
  if frameType = 0x00 then do
    let off ← skipPadding plaintext off
    pure (.next off)
  else if frameType = 0x06 then cryptoFrame plaintext off
  else if frameType = 0x01 ∨ frameType = 0x02 ∨ frameType = 0x03 then
    ackFrame frameType plaintext off
  else if frameType &&& 0x08 ≠ 0 then streamFrame frameType plaintext off
  else free .reject

/-! ## They are the functions of the source -/

@[simp] theorem outcome_index (xs : Bytes) (i : Nat) :
    (index xs i).outcome = Lang.index xs i := by
  simp [index]

@[simp] theorem outcome_readVarint (buf : Bytes) :
    (readVarint buf).outcome = Quic.readVarint buf := by
  simp [readVarint, Quic.readVarint]

@[simp] theorem outcome_uint16At (xs : Bytes) (lo : Nat) :
    (uint16At xs lo).outcome = Quic.uint16At xs lo := by
  simp [uint16At, Quic.uint16At]

@[simp] theorem outcome_handshake (data : Bytes) :
    (handshake data).outcome = Quic.handshake data := by
  simp [handshake, Quic.handshake]

@[simp] theorem outcome_serverName (extData : Bytes) :
    (serverName extData).outcome = Quic.serverName extData := by
  simp [serverName, Quic.serverName, Scan.bind_ok]

@[simp] theorem outcome_findServerName (extensions : Bytes) (eo : Nat) :
    (findServerName extensions eo).outcome = Quic.findServerName extensions eo := by
  induction eo using findServerName.induct extensions with
  | case1 eo h ih =>
    rw [findServerName, dif_pos h, Quic.findServerName, dif_pos h]
    simp [ih]
  | case2 eo h =>
    rw [findServerName, dif_neg h, Quic.findServerName, dif_neg h]
    rfl

@[simp] theorem outcome_extractSNIFromClientHello (data : Bytes) :
    (extractSNIFromClientHello data).outcome = Quic.extractSNIFromClientHello data := by
  simp [extractSNIFromClientHello, Quic.extractSNIFromClientHello]

@[simp] theorem outcome_varintAt (plaintext : Bytes) (off : Nat) :
    (varintAt plaintext off).outcome = Quic.varintAt plaintext off := by
  simp [varintAt, Quic.varintAt]

/-- The PADDING loop examines bytes that are there. -/
@[simp] theorem outcome_skipPadding (plaintext : Bytes) (off : Nat) :
    (skipPadding plaintext off).outcome = .ok (Quic.skipPadding plaintext off) := by
  induction off using Quic.skipPadding.induct plaintext with
  | case1 off h hzero ih =>
    have hindex := index_eq_ok (List.getElem?_eq_getElem h)
    rw [skipPadding, dif_pos h, Quic.skipPadding, dif_pos h]
    simp [hindex, hzero, ih]
  | case2 off h hzero =>
    have hindex := index_eq_ok (List.getElem?_eq_getElem h)
    rw [skipPadding, dif_pos h, Quic.skipPadding, dif_pos h]
    simp [hindex, hzero]
  | case3 off h =>
    rw [skipPadding, dif_neg h, Quic.skipPadding, dif_neg h]
    rfl

@[simp] theorem outcome_cryptoFrame (plaintext : Bytes) (off : Nat) :
    (cryptoFrame plaintext off).outcome = Quic.cryptoFrame plaintext off := by
  simp only [cryptoFrame, Quic.cryptoFrame, outcome_bind, outcome_free, outcome_varintAt,
    outcome_readVarint]
  refine congrArg _ (funext fun r₁ => congrArg _ (funext fun rest => congrArg _ (funext fun r₂ =>
    congrArg _ (funext fun _ => congrArg _ (funext fun data => ?_)))))
  rw [attempt, outcome_extractSNIFromClientHello]
  cases Quic.extractSNIFromClientHello data <;> simp

@[simp] theorem outcome_ackRanges (plaintext : Bytes) (k off : Nat) :
    (ackRanges plaintext k off).outcome = Quic.ackRanges plaintext k off := by
  induction k generalizing off with
  | zero => rfl
  | succ k ih => simp [ackRanges, Quic.ackRanges, ih]

@[simp] theorem outcome_ackFrame (frameType : UInt8) (plaintext : Bytes) (off : Nat) :
    (ackFrame frameType plaintext off).outcome = Quic.ackFrame frameType plaintext off := by
  simp [ackFrame, Quic.ackFrame, ecnCounts, Quic.ecnCounts]

@[simp] theorem outcome_streamFrame (frameType : UInt8) (plaintext : Bytes) (off : Nat) :
    (streamFrame frameType plaintext off).outcome = Quic.streamFrame frameType plaintext off := by
  simp [streamFrame, Quic.streamFrame, streamOffset, Quic.streamOffset, streamLength,
    Quic.streamLength]

@[simp] theorem outcome_frameAt (plaintext : Bytes) (off : Nat) :
    (frameAt plaintext off).outcome = Quic.frameAt plaintext off := by
  simp [frameAt, Quic.frameAt]

/-- The `for off < len(plaintext)` loop. -/
def frameLoop (plaintext : Bytes) (off : Nat) : Count Bytes :=
  if h : off < plaintext.length then
    (frameAt plaintext off).andThen fun r hr =>
      match r, hr with
      | .sni name, _ => pure name
      | .next off', hr =>
        have := frameAt_next_lt h ((outcome_frameAt plaintext off).symm.trans hr)
        frameLoop plaintext off'
  else free .reject
termination_by plaintext.length - off

/-- `parseCryptoFrames` -/
def parseCryptoFrames (plaintext : Bytes) : Count Bytes := frameLoop plaintext 0

/-- What the walk makes of one turn. -/
def afterTurn (plaintext : Bytes) : FrameResult → Scan Bytes
  | .sni name => .ok name
  | .next off => Quic.frameLoop plaintext off

theorem outcome_frameLoop (plaintext : Bytes) (off : Nat) :
    (frameLoop plaintext off).outcome = Quic.frameLoop plaintext off := by
  induction hm : plaintext.length - off using Nat.strongRecOn generalizing off with
  | ind m ih =>
    rw [frameLoop, Quic.frameLoop]
    by_cases h : off < plaintext.length
    · rw [dif_pos h, dif_pos h]
      -- the same turn, and then the same rest of the walk
      refine (outcome_andThen (g := afterTurn plaintext) fun r hr => ?_).trans ?_
      · cases r with
        | sni name => rfl
        | next off' =>
          have hlt := frameAt_next_lt h ((outcome_frameAt plaintext off).symm.trans hr)
          exact ih (plaintext.length - off') (by omega) off' rfl
      · rw [outcome_frameAt]
        split <;> rename_i hn
        · exact Scan.bind_of_ok hn rfl
        · exact Scan.bind_of_ok hn rfl
        · rw [hn, Scan.reject_bind]
        · rw [hn, Scan.panic_bind]
    · rw [dif_neg h, dif_neg h]
      rfl

/-- **`outcome_parseCryptoFrames`** — counting changes nothing. -/
theorem outcome_parseCryptoFrames (plaintext : Bytes) :
    (parseCryptoFrames plaintext).outcome = Quic.parseCryptoFrames plaintext :=
  outcome_frameLoop plaintext 0

/-! ## What the parts cost -/

variable {plaintext : Bytes} {b : Nat}

theorem affords_index {xs : Bytes} {i : Nat} (hb : 1 ≤ b) :
    Affords b (index xs i) (fun _ left => b = left + 1) := by
  refine Affords.bind (affords_charge hb) fun _ left₁ h₁ => ?_
  exact affords_free.mono fun _ left ⟨_, h⟩ => h ▸ h₁

theorem affords_uint16At {xs : Bytes} {lo : Nat} (hb : 2 ≤ b) :
    Affords b (uint16At xs lo) (fun _ left => b = left + 2) := by
  refine Affords.bind affords_free fun word left₁ ⟨_, h₁⟩ => ?_
  refine Affords.bind (affords_charge (by omega)) fun _ left₂ h₂ => ?_
  exact affords_pure (by omega)

/-- A call of `readVarint` costs at most 2 where it gives up, and at most twice what it reads. -/
theorem affords_readVarint {buf : Bytes} (hb : 2 + 2 * buf.length ≤ b) :
    Affords b (readVarint buf) (fun r left => r = varint buf ∧ b ≤ left + max 2 (2 * r.2)) := by
  -- the value is known, so only the credits are left to follow
  have hvalue : ∀ r, (readVarint buf).outcome = .ok r → r = varint buf := fun r hr => by
    rw [outcome_readVarint, readVarint_eq] at hr
    exact (Scan.ok.inj hr).symm
  suffices h : Affords b (readVarint buf) (fun r left => b ≤ left + max 2 (2 * r.2)) from
    ⟨h.1, fun r hr => by
      obtain ⟨left, hle, hq⟩ := h.2 r hr
      exact ⟨left, hle, hvalue r hr, hq⟩⟩
  refine Affords.bind (affords_charge (by omega)) fun _ left₁ h₁ => ?_
  split
  · exact affords_pure (by omega)
  refine Affords.bind (affords_index (by omega)) fun first left₂ h₂ => ?_
  simp only
  split
  · exact affords_pure (by omega)
  split
  · exact affords_pure (by omega)
  split
  · refine Affords.bind (affords_index (by omega)) fun b1 left₃ h₃ => ?_
    exact affords_pure (by omega)
  split
  · refine Affords.bind (affords_index (by omega)) fun b1 left₃ h₃ => ?_
    refine Affords.bind (affords_index (by omega)) fun b2 left₄ h₄ => ?_
    refine Affords.bind (affords_index (by omega)) fun b3 left₅ h₅ => ?_
    exact affords_pure (by omega)
  split
  · refine Affords.bind affords_free fun word left₃ ⟨_, h₃⟩ => ?_
    refine Affords.bind (affords_charge (by omega)) fun _ left₄ h₄ => ?_
    exact affords_pure (by omega)
  · exact affords_pure (by omega)

/-- With two credits for each byte ahead, and two to give up with, a field pays for itself. -/
theorem affords_varintAt {off : Nat} (h : off ≤ plaintext.length)
    (hb : 2 + 2 * (plaintext.length - off) ≤ b) :
    Affords b (varintAt plaintext off) (fun r left =>
      off < r.2 ∧ r.2 ≤ plaintext.length ∧ b ≤ left + 2 * (r.2 - off)) := by
  refine Affords.bind affords_free fun rest left₁ ⟨hrest, h₁⟩ => ?_
  rw [sliceFrom_of_le h] at hrest
  obtain rfl := Scan.ok.inj hrest
  have hlen := List.length_drop (i := off) (l := plaintext)
  refine Affords.bind (affords_readVarint (by omega)) fun ⟨v, n⟩ left₂ ⟨hfield, h₂⟩ => ?_
  refine Affords.bind affords_refuseIf fun _ left₃ ⟨hn, h₃⟩ => ?_
  have hle := varint_len_le (plaintext.drop off)
  rw [← hfield, hlen] at hle
  simp only at h₂ hle ⊢
  exact affords_pure ⟨by omega, by omega, by omega⟩

/-! ## The ClientHello -/

/-- The name is inside the body, and so is every byte that leads to it. -/
theorem affords_serverName {extData : Bytes} (hb : extData.length ≤ b) :
    Affords b (serverName extData) (fun _ _ => True) := by
  refine Affords.bind affords_refuseIf fun _ left₁ ⟨h2, h₁⟩ => ?_
  refine Affords.bind (affords_uint16At (by omega)) fun sniListLen left₂ h₂ => ?_
  refine Affords.bind affords_refuseIf fun _ left₃ ⟨_, h₃⟩ => ?_
  refine Affords.bind affords_free fun sniData left₄ ⟨hdata, h₄⟩ => ?_
  obtain ⟨-, hend, hlen⟩ := slice_eq_ok hdata
  refine Affords.bind affords_refuseIf fun _ left₅ ⟨h3, h₅⟩ => ?_
  refine Affords.bind (affords_index (by omega)) fun nameType left₆ h₆ => ?_
  refine Affords.bind affords_refuseIf fun _ left₇ ⟨_, h₇⟩ => ?_
  refine Affords.bind (affords_uint16At (by omega)) fun sniLen left₈ h₈ => ?_
  refine Affords.bind affords_refuseIf fun _ left₉ ⟨_, h₉⟩ => ?_
  refine Affords.bind affords_free fun name left₀ ⟨hname, h₀⟩ => ?_
  obtain ⟨-, hend', hlen'⟩ := slice_eq_ok hname
  refine Affords.bind (affords_charge (by omega)) fun _ _ _ => ?_
  exact affords_pure trivial

/-- A turn of the extension loop costs five, and passes four bytes or more. -/
theorem affords_findServerName (extensions : Bytes) (eo : Nat)
    (hb : 2 * (extensions.length - eo) ≤ b) :
    Affords b (findServerName extensions eo) (fun _ _ => True) := by
  induction eo using findServerName.induct extensions generalizing b with
  | case1 eo h ih =>
    rw [findServerName, dif_pos h]
    refine Affords.bind (affords_charge (by omega)) fun _ left₁ h₁ => ?_
    refine Affords.bind (affords_uint16At (by omega)) fun extType left₂ h₂ => ?_
    refine Affords.bind (affords_uint16At (by omega)) fun extDataLen left₃ h₃ => ?_
    refine Affords.bind affords_refuseIf fun _ left₄ ⟨hin, h₄⟩ => ?_
    refine Affords.bind affords_free fun extData left₅ ⟨hdata, h₅⟩ => ?_
    obtain ⟨-, -, hlen⟩ := slice_eq_ok hdata
    split
    · exact affords_serverName (by omega)
    · exact ih extDataLen (by omega)
  | case2 eo h =>
    rw [findServerName, dif_neg h]
    exact affords_free.mono fun _ _ _ => trivial

theorem affords_handshake {data : Bytes} (hb : 4 ≤ b) :
    Affords b (handshake data) (fun hs left => hs.length ≤ data.length ∧ b ≤ left + 4) := by
  refine Affords.bind (affords_index (by omega)) fun b0 left₁ h₁ => ?_
  split
  · refine Affords.bind (affords_uint16At (by omega)) fun recordLen left₂ h₂ => ?_
    refine Affords.bind affords_refuseIf fun _ left₃ ⟨_, h₃⟩ => ?_
    refine affords_free.mono fun hs left ⟨hhs, h⟩ => ?_
    obtain ⟨-, hend, hlen⟩ := slice_eq_ok hhs
    exact ⟨by omega, by omega⟩
  · refine Affords.bind (affords_charge (by omega)) fun _ left₂ h₂ => ?_
    split
    · exact affords_pure ⟨le_rfl, by omega⟩
    · exact affords_free.mono fun _ _ ⟨hno, _⟩ => nomatch hno

/-- Two credits for each byte cover the whole ClientHello. -/
theorem affords_extractSNIFromClientHello {data : Bytes} (hb : 2 * data.length ≤ b) :
    Affords b (extractSNIFromClientHello data) (fun _ _ => True) := by
  refine Affords.bind affords_refuseIf fun _ left₁ ⟨h5, h₁⟩ => ?_
  refine Affords.bind (affords_handshake (by omega)) fun hs left₂ ⟨hhs, h₂⟩ => ?_
  refine Affords.bind affords_refuseIf fun _ left₃ ⟨h4, h₃⟩ => ?_
  refine Affords.bind (affords_index (by omega)) fun hsType left₄ h₄ => ?_
  refine Affords.bind affords_refuseIf fun _ left₅ ⟨_, h₅⟩ => ?_
  refine Affords.bind affords_free fun hello left₆ ⟨hhello, h₆⟩ => ?_
  have hlen : hello.length = hs.length - 4 := by
    rw [sliceFrom_of_le (by omega)] at hhello
    rw [← Scan.ok.inj hhello, List.length_drop]
  refine Affords.bind affords_refuseIf fun _ left₇ ⟨h34, h₇⟩ => ?_
  refine Affords.bind affords_refuseIf fun _ left₈ ⟨hsid, h₈⟩ => ?_
  -- past the 34 fixed bytes there are credits enough for the four length fields
  refine Affords.bind (affords_index (by omega)) fun sessionIDLen left₉ h₉ => ?_
  refine Affords.bind affords_refuseIf fun _ left₁₀ ⟨_, h₁₀⟩ => ?_
  refine Affords.bind (affords_uint16At (by omega)) fun csLen left₁₁ h₁₁ => ?_
  refine Affords.bind affords_refuseIf fun _ left₁₂ ⟨_, h₁₂⟩ => ?_
  refine Affords.bind (affords_index (by omega)) fun cmLen left₁₃ h₁₃ => ?_
  refine Affords.bind affords_refuseIf fun _ left₁₄ ⟨_, h₁₄⟩ => ?_
  refine Affords.bind (affords_uint16At (by omega)) fun extLen left₁₅ h₁₅ => ?_
  refine Affords.bind affords_refuseIf fun _ left₁₆ ⟨_, h₁₆⟩ => ?_
  refine Affords.bind affords_free fun extensions left₁₇ ⟨hext, h₁₇⟩ => ?_
  obtain ⟨-, hend, hextLen⟩ := slice_eq_ok hext
  exact affords_findServerName extensions 0 (by omega)

/-! ## The frames -/

/-- **`Pays plaintext off b r left`** — a frame that ends at a new offset used no more than four of the
`b` credits for each byte from `off` on. -/
def Pays (plaintext : Bytes) (off b : Nat) : FrameResult → Nat → Prop
  | .next off', left => off ≤ off' ∧ off' ≤ plaintext.length ∧ b ≤ left + 4 * (off' - off)
  | .sni _, _ => True

theorem affords_skipPadding (off : Nat) (h : off ≤ plaintext.length)
    (hb : 1 + 2 * (plaintext.length - off) ≤ b) :
    Affords b (skipPadding plaintext off) (fun off' left =>
      off ≤ off' ∧ off' ≤ plaintext.length ∧ b ≤ left + 1 + 2 * (off' - off)) := by
  induction off using skipPadding.induct plaintext generalizing b with
  | case1 off hlt ih =>
    rw [skipPadding, dif_pos hlt]
    refine Affords.bind (affords_index (by omega)) fun c left₁ h₁ => ?_
    split
    · refine Affords.bind (affords_charge (by omega)) fun _ left₂ h₂ => ?_
      refine (ih (by omega) (by omega)).mono fun off' left ⟨hle, hend, hcost⟩ => ?_
      exact ⟨by omega, hend, by omega⟩
    · exact affords_pure ⟨le_rfl, h, by omega⟩
  | case2 off hge =>
    rw [skipPadding, dif_neg hge]
    exact affords_pure ⟨le_rfl, h, by omega⟩

/-- However many ranges are announced, each turn passes two bytes or ends the walk. -/
theorem affords_ackRanges (k : Nat) {off : Nat} (h : off ≤ plaintext.length)
    (hb : 3 + 3 * (plaintext.length - off) ≤ b) :
    Affords b (ackRanges plaintext k off) (fun off' left =>
      off ≤ off' ∧ off' ≤ plaintext.length ∧ b ≤ left + 3 * (off' - off)) := by
  induction k generalizing off b with
  | zero => exact affords_pure ⟨le_rfl, h, by omega⟩
  | succ k ih =>
    refine Affords.bind (affords_charge (by omega)) fun _ left₁ h₁ => ?_
    refine Affords.bind (affords_varintAt h (by omega)) fun ⟨_, o₁⟩ left₂ ⟨ho₁, hl₁, h₂⟩ => ?_
    simp only at ho₁ hl₁ h₂
    refine Affords.bind (affords_varintAt hl₁ (by omega)) fun ⟨_, o₂⟩ left₃ ⟨ho₂, hl₂, h₃⟩ => ?_
    simp only at ho₂ hl₂ h₃
    refine (ih hl₂ (by omega)).mono fun off' left ⟨hle, hend, hcost⟩ => ?_
    exact ⟨by omega, hend, by omega⟩

theorem affords_ecnCounts {off : Nat} (h : off ≤ plaintext.length)
    (hb : 3 + 3 * (plaintext.length - off) ≤ b) :
    Affords b (ecnCounts plaintext off) (fun off' left =>
      off ≤ off' ∧ off' ≤ plaintext.length ∧ b ≤ left + 3 * (off' - off)) := by
  refine Affords.bind (affords_charge (by omega)) fun _ left₁ h₁ => ?_
  refine Affords.bind (affords_varintAt h (by omega)) fun ⟨_, o₁⟩ left₂ ⟨ho₁, hl₁, h₂⟩ => ?_
  simp only at ho₁ hl₁ h₂
  refine Affords.bind (affords_charge (by omega)) fun _ left₃ h₃ => ?_
  refine Affords.bind (affords_varintAt hl₁ (by omega)) fun ⟨_, o₂⟩ left₄ ⟨ho₂, hl₂, h₄⟩ => ?_
  simp only at ho₂ hl₂ h₄
  refine Affords.bind (affords_charge (by omega)) fun _ left₅ h₅ => ?_
  refine Affords.bind (affords_varintAt hl₂ (by omega)) fun ⟨_, o₃⟩ left₆ ⟨ho₃, hl₃, h₆⟩ => ?_
  simp only at ho₃ hl₃ h₆
  exact affords_pure ⟨by omega, hl₃, by omega⟩

theorem affords_ackFrame (frameType : UInt8) {off : Nat} (h : off ≤ plaintext.length)
    (hb : 2 + 4 * (plaintext.length - off) ≤ b) :
    Affords b (ackFrame frameType plaintext off) (Pays plaintext off b) := by
  refine Affords.bind (affords_varintAt h (by omega)) fun ⟨_, o₁⟩ left₁ ⟨ho₁, hl₁, h₁⟩ => ?_
  simp only at ho₁ hl₁ h₁
  refine Affords.bind (affords_varintAt hl₁ (by omega)) fun ⟨_, o₂⟩ left₂ ⟨ho₂, hl₂, h₂⟩ => ?_
  simp only at ho₂ hl₂ h₂
  refine Affords.bind (affords_varintAt hl₂ (by omega)) fun ⟨n, o₃⟩ left₃ ⟨ho₃, hl₃, h₃⟩ => ?_
  simp only at ho₃ hl₃ h₃
  refine Affords.bind (affords_varintAt hl₃ (by omega)) fun ⟨_, o₄⟩ left₄ ⟨ho₄, hl₄, h₄⟩ => ?_
  simp only at ho₄ hl₄ h₄
  refine Affords.bind (affords_ackRanges n hl₄ (by omega)) fun o₅ left₅ ⟨ho₅, hl₅, h₅⟩ => ?_
  split
  · refine Affords.bind (affords_ecnCounts hl₅ (by omega)) fun o₆ left₆ ⟨ho₆, hl₆, h₆⟩ => ?_
    exact affords_pure ⟨by omega, hl₆, by omega⟩
  · exact affords_pure ⟨by omega, hl₅, by omega⟩

theorem affords_streamFrame (frameType : UInt8) {off : Nat} (h : off ≤ plaintext.length)
    (hb : 2 + 4 * (plaintext.length - off) ≤ b) :
    Affords b (streamFrame frameType plaintext off) (Pays plaintext off b) := by
  refine Affords.bind (affords_varintAt h (by omega)) fun ⟨_, o₁⟩ left₁ ⟨ho₁, hl₁, h₁⟩ => ?_
  simp only at ho₁ hl₁ h₁
  have hoffset : Affords left₁ (streamOffset frameType plaintext o₁) (fun o left =>
      o₁ ≤ o ∧ o ≤ plaintext.length ∧ left₁ ≤ left + 2 * (o - o₁)) := by
    unfold streamOffset
    split
    · refine Affords.bind (affords_varintAt hl₁ (by omega)) fun ⟨_, o₂⟩ left₂ ⟨ho₂, hl₂, h₂⟩ => ?_
      simp only at ho₂ hl₂ h₂
      exact affords_pure ⟨by omega, hl₂, h₂⟩
    · exact affords_pure ⟨le_rfl, hl₁, by omega⟩
  refine Affords.bind hoffset fun o₂ left₂ ⟨ho₂, hl₂, h₂⟩ => ?_
  have hlength : Affords left₂ (streamLength frameType plaintext o₂) (fun r left =>
      o₂ ≤ r.2 ∧ r.2 ≤ plaintext.length ∧ left₂ ≤ left + 2 * (r.2 - o₂)) := by
    unfold streamLength
    split
    · refine (affords_varintAt hl₂ (by omega)).mono fun r left ⟨ho, hl, hc⟩ => ?_
      exact ⟨le_of_lt ho, hl, hc⟩
    · exact affords_pure ⟨le_rfl, hl₂, by omega⟩
  refine Affords.bind hlength fun ⟨dataLen, o₃⟩ left₃ ⟨ho₃, hl₃, h₃⟩ => ?_
  simp only at ho₃ hl₃ h₃
  refine Affords.bind affords_refuseIf fun _ left₄ ⟨hd, h₄⟩ => ?_
  exact affords_pure ⟨by omega, by omega, by omega⟩

theorem affords_cryptoFrame {off : Nat} (h : off ≤ plaintext.length)
    (hb : 2 + 4 * (plaintext.length - off) ≤ b) :
    Affords b (cryptoFrame plaintext off) (Pays plaintext off b) := by
  refine Affords.bind (affords_varintAt h (by omega)) fun ⟨_, o₁⟩ left₁ ⟨ho₁, hl₁, h₁⟩ => ?_
  simp only at ho₁ hl₁ h₁
  refine Affords.bind affords_free fun rest left₂ ⟨hrest, h₂⟩ => ?_
  rw [sliceFrom_of_le hl₁] at hrest
  obtain rfl := Scan.ok.inj hrest
  have hlen := List.length_drop (i := o₁) (l := plaintext)
  refine Affords.bind (affords_readVarint (by omega)) fun ⟨dataLen, n⟩ left₃ ⟨hfield, h₃⟩ => ?_
  refine Affords.bind affords_refuseIf fun _ left₄ ⟨hguard, h₄⟩ => ?_
  refine Affords.bind affords_free fun data left₅ ⟨hdata, h₅⟩ => ?_
  obtain ⟨-, hend, hdataLen⟩ := slice_eq_ok hdata
  simp only at h₃
  -- what the ClientHello may use is put in front, the rest is kept for the walk
  obtain ⟨c, rfl⟩ : ∃ c, left₅ = 2 * data.length + c := Nat.exists_eq_add_of_le (by omega)
  refine Affords.bind (affords_extractSNIFromClientHello le_rfl).attempt fun sni left₆ h₆ => ?_
  have hnext : Pays plaintext off b (.next (o₁ + n + dataLen)) left₆ :=
    ⟨by omega, hend, by omega⟩
  cases sni with
  | none => exact affords_pure hnext
  | some name =>
    simp only
    split
    · exact affords_pure trivial
    · exact affords_pure hnext

/-- One turn of the walk pays for itself with the bytes it passes, or out of those that are left. -/
theorem affords_frameAt {off : Nat} (h : off < plaintext.length)
    (hb : 4 * (plaintext.length - off) ≤ b) :
    Affords b (frameAt plaintext off) (Pays plaintext off b) := by
  refine Affords.bind (affords_charge (by omega)) fun _ left₁ h₁ => ?_
  refine Affords.bind (affords_index (by omega)) fun frameType left₂ h₂ => ?_
  -- the frame type is a byte of the frame, so two credits are left over
  have hpays : ∀ r left, Pays plaintext (off + 1) left₂ r left → Pays plaintext off b r left := by
    intro r left hr
    cases r with
    | sni name => trivial
    | next off' =>
      obtain ⟨hle, hend, hcost⟩ := hr
      exact ⟨by omega, hend, by omega⟩
  simp only
  split
  · refine Affords.bind (affords_skipPadding (off + 1) h (by omega))
      fun off' left ⟨hle, hend, hcost⟩ => ?_
    exact affords_pure ⟨by omega, hend, by omega⟩
  split
  · exact (affords_cryptoFrame h (by omega)).mono hpays
  split
  · exact (affords_ackFrame frameType h (by omega)).mono hpays
  split
  · exact (affords_streamFrame frameType h (by omega)).mono hpays
  · exact affords_free.mono fun _ _ ⟨hno, _⟩ => nomatch hno

theorem affords_frameLoop (off : Nat) (hb : 4 * (plaintext.length - off) ≤ b) :
    Affords b (frameLoop plaintext off) (fun _ _ => True) := by
  induction hm : plaintext.length - off using Nat.strongRecOn generalizing off b with
  | ind m ih =>
    rw [frameLoop]
    split
    · next h =>
      refine (affords_frameAt h hb).andThen fun r hr left hpays => ?_
      cases r with
      | sni name => exact affords_pure trivial
      | next off' =>
        obtain ⟨hle, hend, hcost⟩ := hpays
        have hlt := frameAt_next_lt h ((outcome_frameAt plaintext off).symm.trans hr)
        exact ih (plaintext.length - off') (by omega) off' (by omega) rfl
    · exact affords_free.mono fun _ _ _ => trivial

end Work

/-- One turn of the ACK-range loop. -/
def ackRange (plaintext : Bytes) (off : Nat) : Scan Nat := do
  let (_, off) ← varintAt plaintext off
  let (_, off) ← varintAt plaintext off
  .ok off

theorem ackRanges_succ (plaintext : Bytes) (k off : Nat) :
    ackRanges plaintext (k + 1) off = ackRange plaintext off >>= ackRanges plaintext k := by
  simp only [ackRanges, ackRange]
  cases varintAt plaintext off with
  | ok r =>
    simp only [Scan.ok_bind]
    cases varintAt plaintext r.2 <;> rfl
  | reject => rfl
  | panic => rfl

theorem ackRange_lt {plaintext : Bytes} {off off' : Nat} (h : off ≤ plaintext.length)
    (hr : ackRange plaintext off = .ok off') : off < off' ∧ off' ≤ plaintext.length := by
  have hsafe : Safe (ackRange plaintext off) (fun o => off < o ∧ o ≤ plaintext.length) := by
    refine Safe.bind (safe_varintAt h) fun ⟨_, o₁⟩ ⟨_, _, h₁, hl₁⟩ => ?_
    refine Safe.bind (safe_varintAt hl₁) fun ⟨_, o₂⟩ ⟨_, _, h₂, hl₂⟩ => ?_
    exact safe_ok ⟨h₁.trans h₂, hl₂⟩
  exact hsafe.of_eq_ok hr

/-- **`parseCryptoFrames_work`** — on a plaintext of `n` bytes the parser, counted, is the parser: it
examines at most `4 * n` bytes, reads at most `4 * n` varints and makes at most `4 * n` turns of its
loops; and a turn of the frame loop or of the ACK-range loop that does not return moves forward,
within the plaintext. -/
theorem parseCryptoFrames_work (plaintext : Bytes) :
    (Work.parseCryptoFrames plaintext).outcome = parseCryptoFrames plaintext ∧
    (∀ k, (Work.parseCryptoFrames plaintext).work k ≤ 4 * plaintext.length) ∧
    (∀ off off', off < plaintext.length → frameAt plaintext off = .ok (.next off') →
      off < off' ∧ off' ≤ plaintext.length) ∧
    (∀ k off, ackRanges plaintext (k + 1) off = ackRange plaintext off >>= ackRanges plaintext k) ∧
    ∀ off off', off ≤ plaintext.length → ackRange plaintext off = .ok off' →
      off < off' ∧ off' ≤ plaintext.length :=
  ⟨Work.outcome_parseCryptoFrames plaintext,
    (Work.affords_frameLoop 0 (by omega)).1,
    fun _ _ h hn => frameAt_next_bounds h hn,
    ackRanges_succ plaintext,
    fun _ _ h hr => ackRange_lt h hr⟩

end ProxyGateway.Quic
