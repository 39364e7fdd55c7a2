/-
# ProxyGateway.Quic.Frames — `parseCryptoFrames`, and exactly when it panics

`parseCryptoFrames` walks the frames of a decrypted Initial packet until a CRYPTO frame yields a
host name.  `frameAt` is one turn of its `for` loop, one definition per `case`; `frameLoop` is the
loop.  The walk always moves forward (`frameAt_next_lt`), so the loop terminates on every plaintext.

Every length is checked before it is used as a slice bound, but the CRYPTO case checks it one varint
too early: `uint64(len(plaintext)-off) < dataLen` is tested BEFORE `off += n` steps over the length
field, while the slice is taken after.  A frame that announces between 1 and `n` bytes more than
there are passes the guard and slices past the end.  `CryptoOverrun` is that frame,
`parseCryptoFrames_panic_iff` says that reaching one is the only way to panic.
-/
import ProxyGateway.Quic.ClientHello
import Mathlib.Logic.Relation

namespace ProxyGateway.Quic

open ProxyGateway.Lang

/-! ## One frame -/

/-- What one turn of the loop does: go on at a new offset, or return a host name. -/
inductive FrameResult where
  | next (off : Nat)
  | sni (name : Bytes)
  deriving DecidableEq, Repr

/-- `v, n := readVarint(plaintext[off:]); if n == 0 { return "", false }; off += n`. -/
def varintAt (plaintext : Bytes) (off : Nat) : Scan (Nat × Nat) := do
  let rest ← sliceFrom plaintext off
  let (v, n) ← readVarint rest
  refuseIf (n = 0)
  .ok (v, off + n)

/-- The inner loop of the PADDING case. -/
def skipPadding (plaintext : Bytes) (off : Nat) : Nat :=
  if h : off < plaintext.length then
    if plaintext[off] = 0x00 then skipPadding plaintext (off + 1) else off
  else off
termination_by plaintext.length - off

/-- The CRYPTO case.  The length guard is evaluated at the offset of the length field itself. -/
def cryptoFrame (plaintext : Bytes) (off : Nat) : Scan FrameResult := do
  let (_, off) ← varintAt plaintext off
  let rest ← sliceFrom plaintext off
  let (dataLen, n) ← readVarint rest
  refuseIf (n = 0 ∨ plaintext.length - off < dataLen)
  let off := off + n
  let data ← slice plaintext off (off + dataLen)
  match extractSNIFromClientHello data with
  | .ok sni => if sni ≠ [] then .ok (.sni sni) else .ok (.next (off + dataLen))
  | .reject => .ok (.next (off + dataLen))
  | .panic => .panic

/-- The ACK-range loop: `k` times a gap and a range length. -/
def ackRanges (plaintext : Bytes) : Nat → Nat → Scan Nat
  | 0, off => .ok off
  | k + 1, off => do
    let (_, off) ← varintAt plaintext off
    let (_, off) ← varintAt plaintext off
    ackRanges plaintext k off

/-- The three ECN counts of an ACK frame of type 0x03. -/
def ecnCounts (plaintext : Bytes) (off : Nat) : Scan Nat := do
  let (_, off) ← varintAt plaintext off
  let (_, off) ← varintAt plaintext off
  let (_, off) ← varintAt plaintext off
  .ok off

/-- The case `0x01, 0x02, 0x03`: all three types are read as ACK frames. -/
def ackFrame (frameType : UInt8) (plaintext : Bytes) (off : Nat) : Scan FrameResult := do
  let (_, off) ← varintAt plaintext off
  let (_, off) ← varintAt plaintext off
  let (ackRangeCount, off) ← varintAt plaintext off
  let (_, off) ← varintAt plaintext off
  let off ← ackRanges plaintext ackRangeCount off
  if frameType = 0x03 then do
    let off ← ecnCounts plaintext off
    .ok (.next off)
  else .ok (.next off)

/-- The optional offset field of a STREAM frame. -/
def streamOffset (frameType : UInt8) (plaintext : Bytes) (off : Nat) : Scan Nat :=
  if frameType &&& 0x04 ≠ 0 then do
    let (_, off) ← varintAt plaintext off
    .ok off
  else .ok off

/-- The optional length field of a STREAM frame; without it the data runs to the end. -/
def streamLength (frameType : UInt8) (plaintext : Bytes) (off : Nat) : Scan (Nat × Nat) :=
  if frameType &&& 0x02 ≠ 0 then varintAt plaintext off
  else .ok (plaintext.length - off, off)

/-- The `default` case with bit 0x08 set: a STREAM frame, skipped. -/
def streamFrame (frameType : UInt8) (plaintext : Bytes) (off : Nat) : Scan FrameResult := do
  let (_, off) ← varintAt plaintext off
  let off ← streamOffset frameType plaintext off
  let (dataLen, off) ← streamLength frameType plaintext off
  refuseIf (plaintext.length - off < dataLen)
  .ok (.next (off + dataLen))

/-- One turn of the `for` loop of `parseCryptoFrames`, entered with `off < len(plaintext)`. -/
def frameAt (plaintext : Bytes) (off : Nat) : Scan FrameResult := do
  let frameType ← index plaintext off
  let off := off + 1
  if frameType = 0x00 then .ok (.next (skipPadding plaintext off))
  else if frameType = 0x06 then cryptoFrame plaintext off
  else if frameType = 0x01 ∨ frameType = 0x02 ∨ frameType = 0x03 then
    ackFrame frameType plaintext off
  else if frameType &&& 0x08 ≠ 0 then streamFrame frameType plaintext off
  else .reject

/-! ## Offsets move forward and stay inside the plaintext -/

variable {plaintext : Bytes}

/-- One spec lemma for `varintAt`: started inside the plaintext it never panics, and the new offset
is past the field and still inside. -/
theorem safe_varintAt {off : Nat} (h : off ≤ plaintext.length) :
    Safe (varintAt plaintext off)
      (fun r => (varint (plaintext.drop off)).2 ≠ 0 ∧
        r = ((varint (plaintext.drop off)).1, off + (varint (plaintext.drop off)).2) ∧
        off < r.2 ∧ r.2 ≤ plaintext.length) := by
  refine Safe.bind (safe_sliceFrom h) fun rest hrest => ?_
  subst hrest
  refine Safe.bind (safe_readVarint _) fun ⟨v, n⟩ ⟨hfield, hlen⟩ => ?_
  refine Safe.bind safe_refuseIf fun _ hn => ?_
  rw [List.length_drop] at hlen
  rw [← hfield]
  simp only at hlen ⊢
  exact safe_ok ⟨hn, rfl, by omega, by omega⟩

theorem skipPadding_bounds {off : Nat} (h : off ≤ plaintext.length) :
    off ≤ skipPadding plaintext off ∧ skipPadding plaintext off ≤ plaintext.length := by
  induction off using skipPadding.induct plaintext with
  | case1 off hlt hzero ih =>
    rw [skipPadding, dif_pos hlt, if_pos hzero]
    have := ih hlt
    omega
  | case2 off hlt hzero =>
    rw [skipPadding, dif_pos hlt, if_neg hzero]
    omega
  | case3 off hge =>
    rw [skipPadding, dif_neg hge]
    omega

/-- The postcondition shared by all frame scanners that start at `off`. -/
def Advances (plaintext : Bytes) (off : Nat) : FrameResult → Prop
  | .next off' => off ≤ off' ∧ off' ≤ plaintext.length
  | .sni _ => True

theorem safe_ackRanges (k : Nat) {off : Nat} (h : off ≤ plaintext.length) :
    Safe (ackRanges plaintext k off) (fun off' => off ≤ off' ∧ off' ≤ plaintext.length) := by
  induction k generalizing off with
  | zero => exact safe_ok ⟨le_rfl, h⟩
  | succ k ih =>
    refine Safe.bind (safe_varintAt h) fun ⟨_, o₁⟩ ⟨_, _, h₁, hl₁⟩ => ?_
    refine Safe.bind (safe_varintAt hl₁) fun ⟨_, o₂⟩ ⟨_, _, h₂, hl₂⟩ => ?_
    refine (ih hl₂).mono fun off' hoff => ⟨?_, hoff.2⟩
    have := hoff.1
    simp only at h₁ h₂ this
    omega

theorem safe_ecnCounts {off : Nat} (h : off ≤ plaintext.length) :
    Safe (ecnCounts plaintext off) (fun off' => off ≤ off' ∧ off' ≤ plaintext.length) := by
  refine Safe.bind (safe_varintAt h) fun ⟨_, o₁⟩ ⟨_, _, h₁, hl₁⟩ => ?_
  refine Safe.bind (safe_varintAt hl₁) fun ⟨_, o₂⟩ ⟨_, _, h₂, hl₂⟩ => ?_
  refine Safe.bind (safe_varintAt hl₂) fun ⟨_, o₃⟩ ⟨_, _, h₃, hl₃⟩ => ?_
  simp only at h₁ h₂ h₃ hl₃
  exact safe_ok ⟨by omega, hl₃⟩

theorem safe_ackFrame (frameType : UInt8) {off : Nat} (h : off ≤ plaintext.length) :
    Safe (ackFrame frameType plaintext off) (Advances plaintext off) := by
  refine Safe.bind (safe_varintAt h) fun ⟨_, o₁⟩ ⟨_, _, h₁, hl₁⟩ => ?_
  refine Safe.bind (safe_varintAt hl₁) fun ⟨_, o₂⟩ ⟨_, _, h₂, hl₂⟩ => ?_
  refine Safe.bind (safe_varintAt hl₂) fun ⟨count, o₃⟩ ⟨_, _, h₃, hl₃⟩ => ?_
  refine Safe.bind (safe_varintAt hl₃) fun ⟨_, o₄⟩ ⟨_, _, h₄, hl₄⟩ => ?_
  refine Safe.bind (safe_ackRanges count hl₄) fun o₅ ⟨h₅, hl₅⟩ => ?_
  simp only at h₁ h₂ h₃ h₄ h₅
  split
  · refine Safe.bind (safe_ecnCounts hl₅) fun o₆ ⟨h₆, hl₆⟩ => ?_
    exact safe_ok ⟨by omega, hl₆⟩
  · exact safe_ok ⟨by omega, hl₅⟩

theorem safe_streamFrame (frameType : UInt8) {off : Nat} (h : off ≤ plaintext.length) :
    Safe (streamFrame frameType plaintext off) (Advances plaintext off) := by
  refine Safe.bind (safe_varintAt h) fun ⟨_, o₁⟩ ⟨_, _, h₁, hl₁⟩ => ?_
  simp only at h₁ hl₁
  have hoffset : Safe (streamOffset frameType plaintext o₁)
      (fun o => o₁ ≤ o ∧ o ≤ plaintext.length) := by
    unfold streamOffset
    split
    · refine Safe.bind (safe_varintAt hl₁) fun ⟨_, o₂⟩ ⟨_, _, h₂, hl₂⟩ => ?_
      exact safe_ok ⟨le_of_lt h₂, hl₂⟩
    · exact safe_ok ⟨le_rfl, hl₁⟩
  refine Safe.bind hoffset fun o₂ ⟨h₂, hl₂⟩ => ?_
  have hlength : Safe (streamLength frameType plaintext o₂)
      (fun r => o₂ ≤ r.2 ∧ r.2 ≤ plaintext.length) := by
    unfold streamLength
    split
    · exact (safe_varintAt hl₂).mono fun r hr => ⟨le_of_lt hr.2.2.1, hr.2.2.2⟩
    · exact safe_ok ⟨le_rfl, hl₂⟩
  refine Safe.bind hlength fun ⟨dataLen, o₃⟩ ⟨h₃, hl₃⟩ => ?_
  simp only at h₃ hl₃
  refine Safe.bind safe_refuseIf fun _ hd => ?_
  exact safe_ok ⟨by omega, by omega⟩

/-! ## The misplaced guard of the CRYPTO case -/

/-- **`LengthOverrun plaintext off`** — the two fields of the CRYPTO frame whose offset field starts
at `off` are complete, and its data length exceeds what follows the length field, but not what
follows the START of the length field. -/
def LengthOverrun (plaintext : Bytes) (off : Nat) : Prop :=
  let n₁ := (varint (plaintext.drop off)).2
  let field := varint (plaintext.drop (off + n₁))
  n₁ ≠ 0 ∧ field.2 ≠ 0 ∧ field.1 ≤ plaintext.length - (off + n₁) ∧
    plaintext.length - (off + n₁ + field.2) < field.1

/-- The CRYPTO case panics exactly on an overrun, and otherwise moves forward. -/
theorem cryptoFrame_cases {off : Nat} (h : off ≤ plaintext.length) :
    (cryptoFrame plaintext off = .panic ∧ LengthOverrun plaintext off) ∨
      (Safe (cryptoFrame plaintext off) (Advances plaintext off) ∧
        ¬ LengthOverrun plaintext off) := by
  unfold cryptoFrame LengthOverrun
  have hfield := safe_varintAt h
  cases hv : varintAt plaintext off with
  | panic => exact absurd hv hfield.ne_panic
  | reject =>
    -- an incomplete offset field ends the walk
    refine Or.inr ⟨trivial, ?_⟩
    rintro ⟨hn₁, -⟩
    have hle := varint_len_le (plaintext.drop off)
    simp [varintAt, sliceFrom_of_le h, readVarint_eq, refuseIf, hn₁] at hv
  | ok r =>
    rw [hv] at hfield
    obtain ⟨hn₁, rfl, hlt, hle⟩ := hfield
    simp only at hlt hle ⊢
    set n₁ := (varint (plaintext.drop off)).2
    set field := varint (plaintext.drop (off + n₁)) with hf
    have hlen : field.2 ≤ plaintext.length - (off + n₁) := by
      have := varint_len_le (plaintext.drop (off + n₁))
      rwa [List.length_drop] at this
    simp only [Scan.ok_bind, sliceFrom_of_le hle, readVarint_eq, ← hf]
    by_cases hguard : field.2 = 0 ∨ plaintext.length - (off + n₁) < field.1
    · refine Or.inr ⟨?_, by omega⟩
      rw [refuseIf_pos hguard]
      trivial
    · rw [refuseIf_neg hguard, Scan.ok_bind]
      by_cases hover : plaintext.length - (off + n₁ + field.2) < field.1
      · refine Or.inl ⟨?_, hn₁, by omega, by omega, hover⟩
        rw [slice, if_neg (by omega), Scan.panic_bind]
      · refine Or.inr ⟨?_, by omega⟩
        rw [slice_of_le (by omega) (by omega), Scan.ok_bind]
        have hhello := extractSNIFromClientHello_safe
          ((plaintext.take (off + n₁ + field.2 + field.1)).drop (off + n₁ + field.2))
        cases hsni : extractSNIFromClientHello
            ((plaintext.take (off + n₁ + field.2 + field.1)).drop (off + n₁ + field.2)) with
        | panic => exact absurd hsni hhello.ne_panic
        | reject => exact safe_ok ⟨by omega, by omega⟩
        | ok name =>
          simp only
          split
          · exact safe_ok trivial
          · exact safe_ok ⟨by omega, by omega⟩

/-- **`CryptoOverrun plaintext off`** — the frame at `off` is a CRYPTO frame with an overrun. -/
def CryptoOverrun (plaintext : Bytes) (off : Nat) : Prop :=
  plaintext[off]? = some 0x06 ∧ LengthOverrun plaintext (off + 1)

/-- One frame: a panic exactly at a `CryptoOverrun`, otherwise strictly forward and in bounds. -/
theorem frameAt_cases {off : Nat} (h : off < plaintext.length) :
    (frameAt plaintext off = .panic ∧ CryptoOverrun plaintext off) ∨
      (Safe (frameAt plaintext off) (Advances plaintext (off + 1)) ∧
        ¬ CryptoOverrun plaintext off) := by
  obtain ⟨b, hb⟩ : ∃ b, plaintext[off]? = some b := ⟨_, List.getElem?_eq_getElem h⟩
  have hnot : b ≠ 0x06 → ¬ CryptoOverrun plaintext off := by
    rintro hne ⟨h6, -⟩
    rw [hb] at h6
    exact hne (Option.some.inj h6)
  unfold frameAt
  rw [index_eq_ok hb, Scan.ok_bind]
  by_cases h0 : b = 0x00
  · rw [if_pos h0]
    exact Or.inr ⟨safe_ok (skipPadding_bounds h), hnot (by subst h0; decide)⟩
  rw [if_neg h0]
  by_cases h6 : b = 0x06
  · rw [if_pos h6]
    subst h6
    have hiff : CryptoOverrun plaintext off ↔ LengthOverrun plaintext (off + 1) :=
      ⟨fun ho => ho.2, fun ho => ⟨hb, ho⟩⟩
    rw [hiff]
    exact cryptoFrame_cases h
  rw [if_neg h6]
  refine Or.inr ⟨?_, hnot h6⟩
  split
  · exact safe_ackFrame b h
  · split
    · exact safe_streamFrame b h
    · exact safe_reject

theorem frameAt_panic_iff {off : Nat} (h : off < plaintext.length) :
    frameAt plaintext off = .panic ↔ CryptoOverrun plaintext off := by
  rcases frameAt_cases h with ⟨hp, ho⟩ | ⟨hs, hno⟩
  · exact iff_of_true hp ho
  · exact iff_of_false hs.ne_panic hno

theorem frameAt_next_bounds {off off' : Nat} (h : off < plaintext.length)
    (hn : frameAt plaintext off = .ok (.next off')) : off < off' ∧ off' ≤ plaintext.length := by
  rcases frameAt_cases h with ⟨hp, -⟩ | ⟨hs, -⟩
  · rw [hp] at hn
    cases hn
  · exact hs.of_eq_ok hn

theorem frameAt_next_lt {off off' : Nat} (h : off < plaintext.length)
    (hn : frameAt plaintext off = .ok (.next off')) : off < off' :=
  (frameAt_next_bounds h hn).1

/-! ## The loop -/

/-- The `for off < len(plaintext)` loop. -/
def frameLoop (plaintext : Bytes) (off : Nat) : Scan Bytes :=
  if h : off < plaintext.length then
    match hn : frameAt plaintext off with
    | .ok (.sni name) => .ok name
    | .ok (.next off') =>
      have := frameAt_next_lt h hn
      frameLoop plaintext off'
    | .reject => .reject
    | .panic => .panic
  else .reject
termination_by plaintext.length - off

/-- `parseCryptoFrames`. -/
def parseCryptoFrames (plaintext : Bytes) : Scan Bytes := frameLoop plaintext 0

/-- One step of the walk: the frame at `off` is passed and the next one starts at `off'`. -/
def FrameStep (plaintext : Bytes) (off off' : Nat) : Prop :=
  off < plaintext.length ∧ frameAt plaintext off = .ok (.next off')

/-- The walk from the first frame reaches the frame at `off`. -/
def WalkReaches (plaintext : Bytes) (off : Nat) : Prop :=
  Relation.ReflTransGen (FrameStep plaintext) 0 off ∧ off < plaintext.length

/-- The walk from `off` on reaches a CRYPTO frame with an overrun. -/
def OverrunAhead (plaintext : Bytes) (off : Nat) : Prop :=
  ∃ off', Relation.ReflTransGen (FrameStep plaintext) off off' ∧ off' < plaintext.length ∧
    CryptoOverrun plaintext off'

theorem overrunAhead_of_stop {off : Nat} (h : off < plaintext.length)
    (hstop : ∀ off', frameAt plaintext off ≠ .ok (.next off')) :
    OverrunAhead plaintext off ↔ CryptoOverrun plaintext off := by
  constructor
  · rintro ⟨off', hr, -, ho⟩
    rcases Relation.ReflTransGen.cases_head hr with rfl | ⟨c, hc, -⟩
    · exact ho
    · exact absurd hc.2 (hstop c)
  · intro ho
    exact ⟨off, Relation.ReflTransGen.refl, h, ho⟩

theorem overrunAhead_of_next {off off₁ : Nat} (h : off < plaintext.length)
    (hn : frameAt plaintext off = .ok (.next off₁)) :
    OverrunAhead plaintext off ↔ OverrunAhead plaintext off₁ := by
  constructor
  · rintro ⟨off', hr, hlen, ho⟩
    rcases Relation.ReflTransGen.cases_head hr with rfl | ⟨c, hc, hr'⟩
    · have hpanic := (frameAt_panic_iff h).mpr ho
      rw [hn] at hpanic
      nomatch hpanic
    · obtain rfl : c = off₁ := by
        have hsame := hc.2.symm.trans hn
        injection hsame with hsame
        injection hsame
      exact ⟨off', hr', hlen, ho⟩
  · rintro ⟨off', hr, hlen, ho⟩
    exact ⟨off', Relation.ReflTransGen.head ⟨h, hn⟩ hr, hlen, ho⟩

theorem frameLoop_panic_iff (off : Nat) :
    frameLoop plaintext off = .panic ↔ OverrunAhead plaintext off := by
  -- every frame that is passed leaves fewer bytes
  induction hm : plaintext.length - off using Nat.strongRecOn generalizing off with
  | ind m ih =>
    rw [frameLoop]
    by_cases h : off < plaintext.length
    · rw [dif_pos h]
      split
      · next name hn =>
        rw [overrunAhead_of_stop h (by simp [hn]), ← frameAt_panic_iff h, hn]
        simp
      · next off₁ hn =>
        have hlt := frameAt_next_lt h hn
        rw [overrunAhead_of_next h hn]
        exact ih (plaintext.length - off₁) (by omega) off₁ rfl
      · next hn =>
        rw [overrunAhead_of_stop h (by simp [hn]), ← frameAt_panic_iff h, hn]
        simp
      · next hn =>
        rw [overrunAhead_of_stop h (by simp [hn]), ← frameAt_panic_iff h]
        exact iff_of_true rfl hn
    · rw [dif_neg h]
      refine iff_of_false (by simp) ?_
      rintro ⟨off', hr, hlen, -⟩
      rcases Relation.ReflTransGen.cases_head hr with rfl | ⟨c, hc, -⟩
      · exact h hlen
      · exact h hc.1

/-- **`parseCryptoFrames_panic_iff`** — the frame walk panics exactly when it reaches a CRYPTO frame
whose announced data overruns the plaintext by no more than its own length field. -/
theorem parseCryptoFrames_panic_iff :
    parseCryptoFrames plaintext = .panic ↔
      ∃ off, WalkReaches plaintext off ∧ CryptoOverrun plaintext off := by
  rw [parseCryptoFrames, frameLoop_panic_iff]
  constructor
  · rintro ⟨off, hr, hlen, ho⟩
    exact ⟨off, ⟨hr, hlen⟩, ho⟩
  · rintro ⟨off, ⟨hr, hlen⟩, ho⟩
    exact ⟨off, hr, hlen, ho⟩

/-- Three bytes are enough: a CRYPTO frame at offset 0 that announces one byte and carries none. -/
example : parseCryptoFrames [0x06, 0x00, 0x01] = .panic := by decide +kernel

end ProxyGateway.Quic
