/-
# ProxyGateway.Quic.HelloFrames — a ClientHello in the frames of RFC 9000

The sender's side of `parseCryptoFrames`.  A `ClientHello` is written as RFC 8446 writes it, exact
lengths included; a `Frame` is one of the frames an Initial packet may hold, PING without a body.  A
sender may put the hello in one CRYPTO frame among others, or cut it into pieces that the offsets put
together again.

The reader is weaker than that on both counts, and each theorem says by how much.  A cut hello is
understood only if some piece is a hello by itself (`parseCryptoFrames_cut_iff`): every CRYPTO frame is
read alone and its offset is thrown away.  A PING is taken for an ACK: the bytes behind it are eaten as
an ACK body, and the hello is found only if the walk gets back on a frame by luck
(`parseCryptoFrames_among_iff`).  Without a PING before it, the hello is always found.
-/
import ProxyGateway.Quic.FrameGrammar

namespace ProxyGateway.Quic

open ProxyGateway.Lang

/-! ## The hello -/

/-- A TLS extension. -/
structure Extension where
  type : Nat
  data : Bytes
  type_lt : type < 65536
  data_lt : data.length < 65536

def Extension.bytes (e : Extension) : Bytes := u16 e.type ++ vec16 e.data

/-- The body of a `server_name` extension with one host name. -/
def serverNameData (host : Bytes) : Bytes := vec16 (0x00 :: vec16 host)

/-- The extension block: a `server_name` extension among others. -/
def blockBytes (before : List Extension) (host : Bytes) (after : List Extension) : Bytes :=
  before.flatMap Extension.bytes ++
    (u16 0 ++ (vec16 (serverNameData host) ++ after.flatMap Extension.bytes))

/-- A well-formed ClientHello that names `host`. -/
structure ClientHello where
  random : Bytes
  sessionID : Bytes
  cipherSuites : Bytes
  compression : Bytes
  before : List Extension
  host : Bytes
  after : List Extension
  random_length : random.length = 32
  sessionID_le : sessionID.length ≤ 32
  cipherSuites_lt : cipherSuites.length < 65536
  compression_lt : compression.length < 256
  before_ne : ∀ e ∈ before, e.type ≠ 0
  block_lt : (blockBytes before host after).length < 65536

namespace ClientHello

def block (ch : ClientHello) : Bytes := blockBytes ch.before ch.host ch.after

/-- Everything behind the length of the message. -/
def body (ch : ClientHello) : Bytes :=
  0x03 :: 0x03 :: ch.random ++ (vec8 ch.sessionID ++ (vec16 ch.cipherSuites ++
    (vec8 ch.compression ++ vec16 ch.block)))

def bytes (ch : ClientHello) : Bytes := 0x01 :: (beBytes 3 ch.body.length ++ ch.body)

end ClientHello

theorem firstServerName_blockBytes {before after : List Extension} {host : Bytes}
    (hne : ∀ e ∈ before, e.type ≠ 0) (hlen : (blockBytes before host after).length < 65536) :
    FirstServerName (blockBytes before host after) (serverNameData host) := by
  induction before with
  | nil =>
    refine .here ?_
    simp only [blockBytes, List.flatMap_nil, List.nil_append, List.length_append,
      vec16_length] at hlen
    omega
  | cons e before ih =>
    obtain ⟨he, hbefore⟩ := List.forall_mem_cons.mp hne
    have hshape : blockBytes (e :: before) host after =
        u16 e.type ++ (vec16 e.data ++ blockBytes before host after) := by
      simp only [blockBytes, List.flatMap_cons, Extension.bytes, List.append_assoc]
    rw [hshape] at hlen ⊢
    rw [List.length_append, List.length_append] at hlen
    exact .skip he e.type_lt e.data_lt (ih hbefore (by omega))

namespace ClientHello

theorem hello (ch : ClientHello) : Hello ch.bytes ch.block :=
  ⟨beBytes 3 ch.body.length, 0x03 :: 0x03 :: ch.random, ch.sessionID, ch.cipherSuites,
    ch.compression, [], beBytes_length _ _, by simp [ch.random_length],
    lt_of_le_of_lt ch.sessionID_le (by norm_num), ch.cipherSuites_lt, ch.compression_lt, ch.block_lt,
    by rw [List.append_nil]; rfl⟩

theorem namesHost (ch : ClientHello) : NamesHost ch.bytes ch.host := by
  have hfirst : FirstServerName ch.block (serverNameData ch.host) :=
    firstServerName_blockBytes ch.before_ne ch.block_lt
  refine ⟨serverNameData ch.host, ⟨ch.bytes, ch.block, Or.inl rfl, ch.hello, hfirst⟩, ?_⟩
  have hlen := hfirst.length_lt
  rw [serverNameData, vec16_length] at hlen
  exact ⟨0x00 :: vec16 ch.host, [], [], by omega, (List.append_nil _).symm,
    by rw [List.append_nil]⟩

end ClientHello

/-! ## A proper prefix of a hello is no hello -/

theorem vec8_inj {a b x y : Bytes} (ha : a.length < 256) (hb : b.length < 256)
    (h : vec8 a ++ x = vec8 b ++ y) : a = b ∧ x = y := by
  obtain ⟨hhead, htail⟩ := List.cons.inj h
  have hlen : a.length = b.length := by
    have hnat := congrArg UInt8.toNat hhead
    rwa [UInt8.toNat_ofNat', UInt8.toNat_ofNat', Nat.mod_eq_of_lt ha, Nat.mod_eq_of_lt hb] at hnat
  exact List.append_inj htail hlen

theorem vec16_inj {a b x y : Bytes} (ha : a.length < 65536) (hb : b.length < 65536)
    (h : vec16 a ++ x = vec16 b ++ y) : a = b ∧ x = y := by
  rw [vec16, vec16, List.append_assoc, List.append_assoc] at h
  obtain ⟨hhead, htail⟩ := List.append_inj h (by simp)
  have hlen : a.length = b.length := by
    rw [← beNat_u16 ha, hhead, beNat_u16 hb]
  exact List.append_inj htail hlen

/-- The lengths inside a hello say where its extension block ends. -/
theorem ClientHello.nil_of_prefix {ch : ClientHello} {d post s : Bytes}
    (hd : ch.bytes = d ++ post) (hname : NamesHost d s) : post = [] := by
  obtain ⟨_, ⟨h, block, hm, hh, -⟩, -⟩ := hname
  obtain ⟨len, fixed, sid, cs, cm, rest, hl3, hf34, hsid, hcs, hcm, hbl, rfl⟩ := hh
  rcases hm with rfl | ⟨version, tail, -, -, rfl⟩
  · simp only [ClientHello.bytes, ClientHello.body, List.cons_append, List.append_assoc] at hd
    obtain ⟨-, hd⟩ := List.cons.inj hd
    obtain ⟨-, hd⟩ := List.append_inj hd (by rw [beBytes_length, hl3])
    rw [← List.cons_append, ← List.cons_append] at hd
    obtain ⟨-, hd⟩ := List.append_inj hd (by simp [ch.random_length, hf34])
    obtain ⟨-, hd⟩ := vec8_inj (lt_of_le_of_lt ch.sessionID_le (by norm_num)) hsid hd
    obtain ⟨-, hd⟩ := vec16_inj ch.cipherSuites_lt hcs hd
    obtain ⟨-, hd⟩ := vec8_inj ch.compression_lt hcm hd
    rw [← List.append_nil (vec16 ch.block)] at hd
    obtain ⟨-, hd⟩ := vec16_inj ch.block_lt hbl hd
    exact (List.append_eq_nil_iff.mp hd.symm).2
  · -- a record starts with 0x16
    obtain ⟨hhead, -⟩ := List.cons.inj hd
    exact absurd hhead (by decide)

/-! ## The frames -/

/-- The frames of an Initial packet, as RFC 9000 encodes them. -/
inductive Frame where
  | padding
  | ping
  | ack (a : Ack)
  | ackEcn (a : Ack) (c : EcnCounts)
  | crypto (c : CryptoBody)

def Frame.bytes : Frame → Bytes
  | .padding => [0x00]
  | .ping => [0x01]
  | .ack a => 0x02 :: a.bytes
  | .ackEcn a c => 0x03 :: (a.bytes ++ c.bytes)
  | .crypto c => 0x06 :: c.bytes

/-- A plaintext made of frames. -/
def framesBytes (frames : List Frame) : Bytes := frames.flatMap Frame.bytes

/-- The piece of the handshake that a frame carries. -/
def Frame.piece : Frame → Option CryptoBody
  | .crypto c => some c
  | _ => none

/-- The CRYPTO frames, in plaintext order. -/
def pieces (frames : List Frame) : List CryptoBody := frames.filterMap Frame.piece

/-- The piece holds byte `i` of the handshake stream. -/
def CryptoBody.holds (c : CryptoBody) (i : Nat) : Bool :=
  decide (c.offset.val ≤ i) && decide (i < c.offset.val + c.data.length)

/-- **`Covers ps h`** — every piece is cut out of `h` at its offset, and every byte of `h` is in exactly
one piece. -/
def Covers (ps : List CryptoBody) (h : Bytes) : Prop :=
  (∀ c ∈ ps, ∃ rest, At h c.offset.val (c.data ++ rest)) ∧
    ∀ i < h.length, ps.countP (CryptoBody.holds · i) = 1

/-! ## Walking over frames -/

/-- Stepping over an item does not change where the walk leads. -/
theorem leads_skip_iff {item rest s : Bytes} (hitem : Skips item) :
    Leads (item ++ rest) s ↔ Leads rest s := by
  have hat := At.zero (item ++ rest)
  constructor
  · intro h
    have hloop := frameLoop_of_leads h hat
    rw [frameLoop_skips hitem hat] at hloop
    exact leads_of_frameLoop hloop hat.advance
  · exact Leads.skip hitem

/-- A frame that carries no handshake and is not a PING is stepped over. -/
theorem Frame.skips {f : Frame} (hpiece : f.piece = none) (hping : f ≠ .ping) : Skips f.bytes := by
  cases f with
  | padding => exact .padding
  | ping => exact absurd rfl hping
  | ack a => exact .ack (Or.inr rfl) a
  | ackEcn a c => exact .ackEcn a c
  | crypto c => nomatch hpiece

theorem framesBytes_append (fs gs : List Frame) :
    framesBytes (fs ++ gs) = framesBytes fs ++ framesBytes gs := by
  rw [framesBytes, List.flatMap_append]
  rfl

theorem framesBytes_cons (f : Frame) (fs : List Frame) :
    framesBytes (f :: fs) = f.bytes ++ framesBytes fs := rfl

theorem leads_frames_iff {fs : List Frame} {rest s : Bytes}
    (hpiece : ∀ f ∈ fs, f.piece = none) (hping : ∀ f ∈ fs, f ≠ .ping) :
    Leads (framesBytes fs ++ rest) s ↔ Leads rest s := by
  induction fs with
  | nil => exact Iff.rfl
  | cons f fs ih =>
    obtain ⟨hf, hfs⟩ := List.forall_mem_cons.mp hpiece
    obtain ⟨hf', hfs'⟩ := List.forall_mem_cons.mp hping
    rw [framesBytes_cons, List.append_assoc, leads_skip_iff (Frame.skips hf hf'), ih hfs hfs']

/-! ## A hello in pieces -/

/-- **`FirstNamed ps s`** — the first piece that by itself is a ClientHello with a non-empty host name
names `s`. -/
def FirstNamed (ps : List CryptoBody) (s : Bytes) : Prop :=
  ∃ pre c post, ps = pre ++ c :: post ∧ NamesHost c.data s ∧ s ≠ [] ∧
    ∀ c' ∈ pre, ∀ t, NamesHost c'.data t → t = []

theorem firstNamed_cons {c : CryptoBody} {ps : List CryptoBody} {s : Bytes} :
    FirstNamed (c :: ps) s ↔ (NamesHost c.data s ∧ s ≠ []) ∨
      ((∀ t, NamesHost c.data t → t = []) ∧ FirstNamed ps s) := by
  constructor
  · rintro ⟨pre, c', post, hps, hname, hne, hpre⟩
    cases pre with
    | nil =>
      obtain ⟨rfl, -⟩ := List.cons.inj hps
      exact Or.inl ⟨hname, hne⟩
    | cons d pre =>
      obtain ⟨rfl, htail⟩ := List.cons.inj hps
      obtain ⟨hd, hpre⟩ := List.forall_mem_cons.mp hpre
      exact Or.inr ⟨hd, pre, c', post, htail, hname, hne, hpre⟩
  · rintro (⟨hname, hne⟩ | ⟨hnone, pre, c', post, rfl, hname, hne, hpre⟩)
    · exact ⟨[], c, ps, rfl, hname, hne, nofun⟩
    · exact ⟨c :: pre, c', post, rfl, hname, hne, List.forall_mem_cons.mpr ⟨hnone, hpre⟩⟩

/-- The name that a byte string gives is unique. -/
theorem NamesHost.unique {d s t : Bytes} (hs : NamesHost d s) (ht : NamesHost d t) : s = t := by
  rw [← extractSNIFromClientHello_eq_ok_iff] at hs ht
  exact Scan.ok.inj (hs.symm.trans ht)

theorem leads_crypto_iff {c : CryptoBody} {rest s : Bytes} :
    Leads (Frame.bytes (.crypto c) ++ rest) s ↔ (NamesHost c.data s ∧ s ≠ []) ∨
      ((∀ t, NamesHost c.data t → t = []) ∧ Leads rest s) := by
  by_cases hname : ∃ t, NamesHost c.data t ∧ t ≠ []
  · obtain ⟨t, ht, hne⟩ := hname
    have hlead : Leads (Frame.bytes (.crypto c) ++ rest) t := .crypto ht hne
    constructor
    · intro h
      rw [← parseCryptoFrames_eq_ok_iff] at h hlead
      obtain rfl := Scan.ok.inj (hlead.symm.trans h)
      exact Or.inl ⟨ht, hne⟩
    · rintro (⟨hs, -⟩ | ⟨hnone, -⟩)
      · rwa [hs.unique ht]
      · exact absurd (hnone t ht) hne
  · have hnone : ∀ t, NamesHost c.data t → t = [] := by
      intro t ht
      by_contra hne
      exact hname ⟨t, ht, hne⟩
    have hskip : Skips (Frame.bytes (.crypto c)) := .crypto c hnone
    rw [leads_skip_iff hskip]
    constructor
    · exact fun h => Or.inr ⟨hnone, h⟩
    · rintro (hs | ⟨-, h⟩)
      · exact absurd ⟨s, hs⟩ hname
      · exact h

/-- Over PADDING and CRYPTO frames the walk leads to the first piece that names a host. -/
theorem leads_pieces_iff {fs : List Frame} {s : Bytes}
    (hkind : ∀ f ∈ fs, f = .padding ∨ ∃ c, f = .crypto c) :
    Leads (framesBytes fs) s ↔ FirstNamed (pieces fs) s := by
  induction fs with
  | nil =>
    constructor
    · intro h
      rw [← parseCryptoFrames_eq_ok_iff, parseCryptoFrames, frameLoop_of_le (Nat.zero_le _)] at h
      cases h
    · rintro ⟨pre, c, post, hps, -⟩
      have hnil := (List.append_eq_nil_iff.mp hps.symm).2
      cases hnil
  | cons f fs ih =>
    obtain ⟨hf, hfs⟩ := List.forall_mem_cons.mp hkind
    rw [framesBytes_cons]
    rcases hf with rfl | ⟨c, rfl⟩
    · have hskip : Skips (Frame.bytes .padding) := .padding
      rw [leads_skip_iff hskip, ih hfs]
      rfl
    · rw [leads_crypto_iff, ih hfs]
      exact firstNamed_cons.symm

/-- **`InnerHello ps s`** — a piece from inside the hello, before any other that names a host, is by
itself a ClientHello that names `s`. -/
def InnerHello (ps : List CryptoBody) (s : Bytes) : Prop :=
  ∃ pre c post, ps = pre ++ c :: post ∧ 0 < c.offset.val ∧ NamesHost c.data s ∧
    ∀ c' ∈ pre, ∀ t, NamesHost c'.data t → t = []

theorem Covers.holds_unique {ps : List CryptoBody} {h : Bytes} {pre post : List CryptoBody}
    {c c' : CryptoBody} {i : Nat} (hcover : Covers ps h) (hps : ps = pre ++ c :: post) (hi : i < h.length)
    (hc : c.holds i) (hmem : c' ∈ pre) : ¬ c'.holds i := by
  intro hc'
  have hone := hcover.2 i hi
  rw [hps, List.countP_append, List.countP_cons_of_pos (p := (CryptoBody.holds · i)) hc] at hone
  have hpos : 0 < pre.countP (CryptoBody.holds · i) := List.countP_pos_iff.mpr ⟨c', hmem, hc'⟩
  omega

/-- Where one piece is the whole hello, every other piece is empty. -/
theorem Covers.nil_of_whole {ps : List CryptoBody} {h : Bytes} {pre post : List CryptoBody}
    {c c' : CryptoBody} (hcover : Covers ps h) (hps : ps = pre ++ c :: post) (hwhole : c.data = h)
    (hmem : c' ∈ pre) : c'.data = [] := by
  by_contra hne
  have hpos := List.length_pos_iff.mpr hne
  obtain ⟨r, hat⟩ := hcover.1 c (by rw [hps]; simp)
  obtain ⟨r', hat'⟩ := hcover.1 c' (by rw [hps]; simp [hmem])
  have hlen := hat.length_eq
  have hlen' := hat'.length_eq
  rw [List.length_append] at hlen hlen'
  rw [hwhole] at hlen
  refine hcover.holds_unique (i := c'.offset.val) hps (by omega) ?_ hmem ?_
  · simp only [CryptoBody.holds, hwhole, Bool.and_eq_true, decide_eq_true_eq]
    omega
  · simp only [CryptoBody.holds, Bool.and_eq_true, decide_eq_true_eq]
    omega

theorem not_namesHost_nil (s : Bytes) : ¬ NamesHost [] s := by
  intro h
  rw [← extractSNIFromClientHello_eq_ok_iff] at h
  nomatch h

/-- **`parseCryptoFrames_cut_iff`** — of a hello in pieces the host name is found exactly when one
CRYPTO frame holds the whole hello, or a piece from its inside is a hello with that name again. -/
theorem parseCryptoFrames_cut_iff (ch : ClientHello) {fs : List Frame}
    (hkind : ∀ f ∈ fs, f = .padding ∨ ∃ c, f = .crypto c)
    (hcover : Covers (pieces fs) ch.bytes) (hhost : ch.host ≠ []) :
    parseCryptoFrames (framesBytes fs) = .ok ch.host ↔
      (∃ c ∈ pieces fs, c.data = ch.bytes) ∨ InnerHello (pieces fs) ch.host := by
  rw [parseCryptoFrames_eq_ok_iff, leads_pieces_iff hkind]
  constructor
  · rintro ⟨pre, c, post, hps, hname, -, hpre⟩
    have hmem : c ∈ pieces fs := by
      rw [hps]
      simp
    by_cases hzero : c.offset.val = 0
    · -- at offset 0 a piece is a prefix, and no proper prefix is a hello
      obtain ⟨rest, p, hbytes, hp⟩ := hcover.1 c hmem
      rw [hzero] at hp
      obtain rfl := List.length_eq_zero_iff.mp hp.symm
      rw [List.nil_append] at hbytes
      obtain rfl := ClientHello.nil_of_prefix hbytes hname
      exact Or.inl ⟨c, hmem, by rw [hbytes, List.append_nil]⟩
    · exact Or.inr ⟨pre, c, post, hps, Nat.pos_of_ne_zero hzero, hname, hpre⟩
  · rintro (⟨c, hmem, hwhole⟩ | ⟨pre, c, post, hps, -, hname, hpre⟩)
    · obtain ⟨pre, post, hps⟩ := List.append_of_mem hmem
      refine ⟨pre, c, post, hps, by rw [hwhole]; exact ch.namesHost, hhost, ?_⟩
      intro c' hc' t ht
      rw [hcover.nil_of_whole hps hwhole hc'] at ht
      exact absurd ht (not_namesHost_nil t)
    · exact ⟨pre, c, post, hps, hname, hhost, hpre⟩

/-- A piece of the handshake, both fields in two bytes. -/
def pieceAt (offset : Nat) (data : Bytes) (ho : offset < 2 ^ 14) (hd : data.length < 2 ^ 14) :
    CryptoBody :=
  ⟨⟨1, offset, by norm_num, ho⟩, ⟨1, data.length, by norm_num, hd⟩, data, rfl⟩

/-- The shortest hello for the host `x.io`. -/
def plainHello : ClientHello where
  random := List.replicate 32 0x2a
  sessionID := []
  cipherSuites := [0x13, 0x01]
  compression := [0x00]
  before := []
  host := [0x78, 0x2e, 0x69, 0x6f]
  after := []
  random_length := List.length_replicate
  sessionID_le := by decide
  cipherSuites_lt := by decide
  compression_lt := by decide
  before_ne := by decide
  block_lt := by decide

/-- The hello in two CRYPTO frames. -/
def cutFrames : List Frame :=
  [.crypto (pieceAt 0 (plainHello.bytes.take 30) (by decide) (by decide)),
    .crypto (pieceAt 30 (plainHello.bytes.drop 30) (by decide) (by decide))]

/-- The hello in one CRYPTO frame. -/
def wholeFrame : CryptoBody := pieceAt 0 plainHello.bytes (by decide) (by decide)

theorem parseCryptoFrames_cut_whole :
    parseCryptoFrames (framesBytes [.padding, .crypto wholeFrame]) = .ok plainHello.host := by
  refine (parseCryptoFrames_cut_iff plainHello ?_ ?_ (by decide)).mpr
    (Or.inl ⟨wholeFrame, List.mem_singleton.mpr rfl, rfl⟩)
  · rintro f (_ | ⟨_, _ | ⟨_, ⟨⟩⟩⟩)
    · exact Or.inl rfl
    · exact Or.inr ⟨_, rfl⟩
  · refine ⟨?_, by decide⟩
    rintro c (_ | ⟨_, ⟨⟩⟩)
    exact ⟨[], by rw [List.append_nil]; exact At.zero plainHello.bytes⟩

theorem parseCryptoFrames_cut_refused :
    ¬ ∀ (ch : ClientHello) (fs : List Frame), (∀ f ∈ fs, f = .padding ∨ ∃ c, f = .crypto c) →
      Covers (pieces fs) ch.bytes → ch.host ≠ [] →
        parseCryptoFrames (framesBytes fs) = .ok ch.host := by
  intro hclaim
  have hrefused : parseCryptoFrames (framesBytes cutFrames) = .reject := by decide +kernel
  have hfound := hclaim plainHello cutFrames ?_ ?_ (by decide)
  · rw [hrefused] at hfound
    nomatch hfound
  · rintro f (_ | ⟨_, _ | ⟨_, ⟨⟩⟩⟩)
    · exact Or.inr ⟨_, rfl⟩
    · exact Or.inr ⟨_, rfl⟩
  · refine ⟨?_, by decide⟩
    rintro c (_ | ⟨_, _ | ⟨_, ⟨⟩⟩⟩)
    · refine ⟨plainHello.bytes.drop 30, ?_⟩
      have hat := At.zero plainHello.bytes
      rwa [← List.take_append_drop 30 plainHello.bytes] at hat
    · exact ⟨[], plainHello.bytes.take 30, by decide, by decide⟩

/-! ## A hello among other frames -/

/-- A PING is read with an ACK body. -/
theorem leads_ping_iff {r s : Bytes} :
    Leads (Frame.bytes .ping ++ r) s ↔ ∃ (a : Ack) (rest : Bytes), r = a.bytes ++ rest ∧ Leads rest s := by
  constructor
  · intro h
    generalize hb : Frame.bytes .ping ++ r = bytes at h
    cases h with
    | crypto hname hne => exact absurd (List.cons.inj hb).1 (by decide)
    | skip hitem hrest =>
      cases hitem with
      | padding => exact absurd (List.cons.inj hb).1 (by decide)
      | ack htype a => exact ⟨a, _, (List.cons.inj hb).2, hrest⟩
      | ackEcn a c => exact absurd (List.cons.inj hb).1 (by decide)
      | crypto c hnone => exact absurd (List.cons.inj hb).1 (by decide)
      | stream f =>
        have htype : 0x01 = f.type := (List.cons.inj hb).1
        exact absurd (by rw [← htype]; rfl) f.isStream
  · rintro ⟨a, rest, rfl, hrest⟩
    have hskip : Skips (0x01 :: a.bytes) := .ack (Or.inl rfl) a
    have hlead : Leads (0x01 :: a.bytes ++ rest) s := .skip hskip hrest
    exact hlead

/-- **`PingHarmless pre tail s`** — behind the first PING of `pre` the bytes happen to be an ACK body,
and what follows it leads to `s`. -/
def PingHarmless (pre : List Frame) (tail s : Bytes) : Prop :=
  ∃ a b, pre = a ++ .ping :: b ∧ (∀ f ∈ a, f ≠ .ping) ∧
    ∃ (body : Ack) (rest : Bytes), framesBytes b ++ tail = body.bytes ++ rest ∧ Leads rest s

/-- The frames up to the first PING, if there is one. -/
theorem exists_first_ping (fs : List Frame) :
    (∀ f ∈ fs, f ≠ .ping) ∨ ∃ a b, fs = a ++ .ping :: b ∧ ∀ f ∈ a, f ≠ .ping := by
  induction fs with
  | nil => exact Or.inl nofun
  | cons f fs ih =>
    by_cases hf : f = .ping
    · exact Or.inr ⟨[], fs, by rw [hf]; rfl, nofun⟩
    · rcases ih with hall | ⟨a, b, rfl, ha⟩
      · exact Or.inl (List.forall_mem_cons.mpr ⟨hf, hall⟩)
      · exact Or.inr ⟨f :: a, b, rfl, List.forall_mem_cons.mpr ⟨hf, ha⟩⟩

theorem first_ping_unique {a b a' b' : List Frame} (ha : ∀ f ∈ a, f ≠ .ping)
    (ha' : ∀ f ∈ a', f ≠ .ping) (h : a ++ .ping :: b = a' ++ .ping :: b') : a = a' ∧ b = b' := by
  induction a generalizing a' with
  | nil =>
    cases a' with
    | nil => exact ⟨rfl, (List.cons.inj h).2⟩
    | cons f a' => exact absurd (List.cons.inj h).1.symm (ha' f List.mem_cons_self)
  | cons f a ih =>
    cases a' with
    | nil => exact absurd (List.cons.inj h).1 (ha f List.mem_cons_self)
    | cons f' a' =>
      obtain ⟨rfl, htail⟩ := List.cons.inj h
      obtain ⟨rfl, rfl⟩ := ih (List.forall_mem_cons.mp ha).2 (List.forall_mem_cons.mp ha').2 htail
      exact ⟨rfl, rfl⟩

/-- **`parseCryptoFrames_among_iff`** — among other frames the host name of the hello is found exactly
when no PING comes before it, or the bytes behind the first PING happen to be harmless. -/
theorem parseCryptoFrames_among_iff (ch : ClientHello) {pre post : List Frame} {c : CryptoBody}
    (hpre : ∀ f ∈ pre, f.piece = none) (hdata : c.data = ch.bytes) (hhost : ch.host ≠ []) :
    parseCryptoFrames (framesBytes (pre ++ .crypto c :: post)) = .ok ch.host ↔
      (∀ f ∈ pre, f ≠ .ping) ∨
        PingHarmless pre (framesBytes (.crypto c :: post)) ch.host := by
  have hname : NamesHost c.data ch.host := by
    rw [hdata]
    exact ch.namesHost
  rw [parseCryptoFrames_eq_ok_iff, framesBytes_append]
  rcases exists_first_ping pre with hnone | ⟨a, b, rfl, ha⟩
  · refine iff_of_true ?_ (Or.inl hnone)
    rw [leads_frames_iff hpre hnone]
    exact .crypto hname hhost
  · have hpiece : ∀ f ∈ a, f.piece = none := fun f hf => hpre f (List.mem_append_left _ hf)
    rw [framesBytes_append, List.append_assoc, leads_frames_iff hpiece ha, framesBytes_cons,
      List.append_assoc, leads_ping_iff]
    constructor
    · rintro ⟨body, rest, hbytes, hrest⟩
      exact Or.inr ⟨a, b, rfl, ha, body, rest, hbytes, hrest⟩
    · rintro (hno | ⟨a', b', heq, ha', body, rest, hbytes, hrest⟩)
      · exact absurd rfl (hno .ping (by simp))
      · obtain ⟨-, rfl⟩ := first_ping_unique ha ha' heq
        exact ⟨body, rest, hbytes, hrest⟩

theorem parseCryptoFrames_among_acks :
    parseCryptoFrames (framesBytes ([.padding] ++ .crypto wholeFrame :: [.ping])) =
      .ok plainHello.host :=
  (parseCryptoFrames_among_iff plainHello (by simp [Frame.piece]) rfl (by decide)).mpr
    (Or.inl (by simp))

/-- A PING in front of the hello hides it. -/
theorem parseCryptoFrames_ping_hides :
    ¬ ∀ (ch : ClientHello) (pre post : List Frame) (c : CryptoBody),
      (∀ f ∈ pre, f.piece = none) → (∀ f ∈ post, f.piece = none) → c.offset.val = 0 →
        c.data = ch.bytes → ch.host ≠ [] →
          parseCryptoFrames (framesBytes (pre ++ .crypto c :: post)) = .ok ch.host := by
  intro hclaim
  have hhidden : parseCryptoFrames (framesBytes ([.ping] ++ .crypto wholeFrame :: [])) = .reject := by
    decide +kernel
  have hfound := hclaim plainHello [.ping] [] wholeFrame (by simp [Frame.piece]) nofun rfl rfl
    (by decide)
  rw [hhidden] at hfound
  nomatch hfound

end ProxyGateway.Quic
