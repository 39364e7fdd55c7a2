/-
# ProxyGateway.Quic.HelloGrammar — the language that `extractSNIFromClientHello` accepts

The parser of `ClientHello` moves an offset through eight nested length prefixes.  This module writes
down, without offsets, the byte strings it is meant to accept: a message is a concatenation of
fields, a length prefix is the length of the field it stands before, and the extension block is read
up to its first extension of type 0.  `extractSNIFromClientHello_eq_ok_iff` is the square: a name is
returned exactly on the strings of the grammar, and it is the name the grammar points at.

The parser adds two lengths in `uint16`.  `SumsFit` says that neither sum wraps, for the body that
is handed to `serverName`; it is what makes the grammar free of a modulus.
-/
import ProxyGateway.Quic.ClientHello

namespace ProxyGateway.Quic

open ProxyGateway.Lang

/-! ## Prefixed fields -/

/-- A number in two bytes, most significant byte first. -/
def u16 (n : Nat) : Bytes := beBytes 2 n

/-- A field behind its length in one byte. -/
def vec8 (field : Bytes) : Bytes := UInt8.ofNat field.length :: field

/-- A field behind its length in two bytes. -/
def vec16 (field : Bytes) : Bytes := u16 field.length ++ field

@[simp] theorem u16_length (n : Nat) : (u16 n).length = 2 := beBytes_length 2 n

@[simp] theorem vec8_length (field : Bytes) : (vec8 field).length = 1 + field.length := by
  simp [vec8, Nat.add_comm]

@[simp] theorem vec16_length (field : Bytes) : (vec16 field).length = 2 + field.length := by
  simp [vec16]

theorem beNat_u16 {n : Nat} (h : n < 65536) : beNat (u16 n) = n := by
  rw [u16, beNat_beBytes]
  exact Nat.mod_eq_of_lt h

/-- Two bytes are the number they denote. -/
theorem eq_u16_beNat {word : Bytes} (h : word.length = 2) : word = u16 (beNat word) := by
  rw [u16, ← h, beBytes_beNat]

/-- Reading a number where a `u16` stands. -/
theorem uint16At_append {xs q : Bytes} (pre : Bytes) {n lo : Nat} (hn : n < 65536)
    (h : xs = pre ++ (u16 n ++ q)) (hlo : lo = pre.length) : uint16At xs lo = .ok n := by
  refine Scan.bind_of_ok (slice_append pre (u16 n) h hlo (by rw [u16_length])) ?_
  rw [beNat_u16 hn]

/-- A number that was read is a `u16` at that place. -/
theorem uint16At_split {xs p r : Bytes} {lo n : Nat} (h : uint16At xs lo = .ok n)
    (hx : xs = p ++ r) (hlo : lo = p.length) :
    n < 65536 ∧ ∃ post, r = u16 n ++ post := by
  obtain ⟨word, hword, hn⟩ := Scan.bind_eq_ok.mp h
  obtain rfl : beNat word = n := Scan.ok.inj hn
  obtain ⟨hlen, post, rfl⟩ := slice_split hword hx hlo
  have hlen2 : word.length = 2 := by omega
  have hlt := beNat_lt word
  rw [hlen2] at hlt
  exact ⟨hlt, post, by rw [← eq_u16_beNat hlen2]⟩

/-! ## The grammar -/

/-- **`Message d h`** — the handshake message of the record layer: `d` itself, or the payload of
the TLS record that `d` starts with. -/
def Message (d h : Bytes) : Prop :=
  d = h ∨ ∃ version rest, version.length = 2 ∧ h.length < 65536 ∧
    d = 0x16 :: (version ++ (vec16 h ++ rest))

/-- **`Hello h block`** — `h` is a ClientHello with the extension block `block`: type, length, version
and random, session id, cipher suites, compression methods, extensions; anything may follow. -/
def Hello (h block : Bytes) : Prop :=
  ∃ len fixed sessionID cipherSuites compression rest,
    len.length = 3 ∧ fixed.length = 34 ∧ sessionID.length < 256 ∧ cipherSuites.length < 65536 ∧
    compression.length < 256 ∧ block.length < 65536 ∧
    h = 0x01 :: (len ++ (fixed ++ (vec8 sessionID ++ (vec16 cipherSuites ++ (vec8 compression ++
      (vec16 block ++ rest))))))

/-- **`FirstServerName block body`** — `body` is the body of the first extension of type 0 in `block`,
and every extension up to it lies inside the block. -/
inductive FirstServerName : Bytes → Bytes → Prop where
  | here {body rest : Bytes} (hbody : body.length < 65536) :
      FirstServerName (u16 0 ++ (vec16 body ++ rest)) body
  | skip {extType : Nat} {data rest body : Bytes} (hne : extType ≠ 0) (htype : extType < 65536)
      (hdata : data.length < 65536) (hrest : FirstServerName rest body) :
      FirstServerName (u16 extType ++ (vec16 data ++ rest)) body

/-- **`HostName body s`** — the name list in `body` starts with the host name `s`. -/
def HostName (body s : Bytes) : Prop :=
  ∃ names more rest, names.length < 65536 ∧ body = vec16 names ++ rest ∧
    names = 0x00 :: (vec16 s ++ more)

/-- **`ServerNameBody d body`** — `body` is what the parser of `d` hands to `serverName`. -/
def ServerNameBody (d body : Bytes) : Prop :=
  ∃ h block, Message d h ∧ Hello h block ∧ FirstServerName block body

/-- **`NamesHost d s`** — `d` is a ClientHello, bare or in a record, that names the host `s`. -/
def NamesHost (d s : Bytes) : Prop := ∃ body, ServerNameBody d body ∧ HostName body s

/-- **`SumsFit body`** — the two slice bounds that `serverName` adds in `uint16` do not wrap. -/
def SumsFit (body : Bytes) : Prop :=
  ∀ sniListLen, 2 ≤ body.length → uint16At body 0 = .ok sniListLen →
    sniListLen ≤ body.length - 2 →
    2 + sniListLen < 65536 ∧
      ∀ sniData sniLen, slice body 2 (2 + sniListLen) = .ok sniData → 3 ≤ sniData.length →
        uint16At sniData 1 = .ok sniLen → sniLen ≤ sniData.length - 3 → 3 + sniLen < 65536

/-! ## The extension body -/

theorem FirstServerName.length_lt {block body : Bytes} (h : FirstServerName block body) :
    body.length < 65536 := by
  induction h with
  | here hbody => exact hbody
  | skip _ _ _ _ ih => exact ih

theorem sumsFit_of_length_lt {body : Bytes} (hbody : body.length < 65536) : SumsFit body := by
  intro sniListLen h2 _ hlist
  refine ⟨by omega, ?_⟩
  intro sniData sniLen hslice h3 _ hname
  have hlen := (safe_slice (by omega) (by omega)).of_eq_ok hslice
  omega

theorem serverName_eq_ok_iff {body s : Bytes} (hbody : body.length < 65536) :
    serverName body = .ok s ↔ HostName body s := by
  constructor
  · intro h
    obtain ⟨_, h2, h⟩ := Scan.bind_eq_ok.mp h
    obtain ⟨sniListLen, hlist, h⟩ := Scan.bind_eq_ok.mp h
    obtain ⟨_, hin, h⟩ := Scan.bind_eq_ok.mp h
    obtain ⟨names, hnames, h⟩ := Scan.bind_eq_ok.mp h
    obtain ⟨_, h3, h⟩ := Scan.bind_eq_ok.mp h
    obtain ⟨nameType, htype, h⟩ := Scan.bind_eq_ok.mp h
    obtain ⟨_, hzero, h⟩ := Scan.bind_eq_ok.mp h
    obtain ⟨sniLen, hsni, h⟩ := Scan.bind_eq_ok.mp h
    obtain ⟨_, hfit, hs⟩ := Scan.bind_eq_ok.mp h
    rw [refuseIf_eq_ok] at h2 hin h3 hzero hfit
    -- the body: length of the list, the list, whatever follows
    obtain ⟨hlt, post, rfl⟩ := uint16At_split hlist (List.nil_append _).symm rfl
    rw [List.length_append, u16_length] at hbody hin
    rw [Nat.mod_eq_of_lt (by omega)] at hnames
    obtain ⟨hend, rest, rfl⟩ := slice_split hnames rfl (u16_length _).symm
    obtain rfl : sniListLen = names.length := by omega
    -- the list: type 0, length of the name, the name, whatever follows
    obtain ⟨tail, rfl⟩ := index_split htype (List.nil_append _).symm rfl
    obtain ⟨hlt', post', rfl⟩ := uint16At_split (p := [nameType]) hsni rfl rfl
    simp only [List.length_cons, List.length_append, u16_length] at hfit h3 hlt
    rw [Nat.mod_eq_of_lt (by omega)] at hs
    obtain ⟨hend', more, rfl⟩ := slice_split (p := nameType :: u16 sniLen) hs rfl (by simp)
    obtain rfl : sniLen = s.length := by omega
    obtain rfl : nameType = 0x00 := not_not.mp hzero
    refine ⟨_, more, rest, ?_, ?_, rfl⟩
    · simp only [List.length_cons, List.length_append, vec16_length] at hlt ⊢
      omega
    · rw [vec16, List.append_assoc, vec16, List.append_assoc]
  · rintro ⟨names, more, rest, hnames, rfl, rfl⟩
    have hs : s.length < 65536 := by
      simp only [List.length_cons, List.length_append, vec16_length] at hnames
      omega
    set names := 0x00 :: (vec16 s ++ more) with hdef
    have hlen : names.length = 3 + s.length + more.length := by
      simp only [hdef, List.length_cons, List.length_append, vec16_length]
      omega
    rw [List.length_append, vec16_length] at hbody
    refine Scan.bind_of_ok (refuseIf_neg (by simp; omega)) ?_
    refine Scan.bind_of_ok (uint16At_append [] (n := names.length) hnames
      (q := names ++ rest) (by simp [vec16]) rfl) ?_
    refine Scan.bind_of_ok (refuseIf_neg (by simp; omega)) ?_
    rw [Nat.mod_eq_of_lt (by omega)]
    refine Scan.bind_of_ok (slice_append (u16 names.length) names (q := rest)
      (by simp [vec16]) (by simp) (by omega)) ?_
    refine Scan.bind_of_ok (refuseIf_neg (by omega)) ?_
    refine Scan.bind_of_ok (index_append [] hdef rfl) ?_
    refine Scan.bind_of_ok (refuseIf_neg (not_not_intro rfl)) ?_
    refine Scan.bind_of_ok (uint16At_append [0x00] (n := s.length) hs (q := s ++ more)
      (by simp [hdef, vec16]) rfl) ?_
    refine Scan.bind_of_ok (refuseIf_neg (by omega)) ?_
    rw [Nat.mod_eq_of_lt (by omega)]
    exact slice_append (0x00 :: u16 s.length) s (q := more) (by simp [hdef, vec16])
      (by simp) rfl

/-! ## The extension block -/

/-- One extension at the offset the walk has reached. -/
theorem findServerName_of_extension {block pre data rest : Bytes} {extType : Nat}
    (htype : extType < 65536) (hdata : data.length < 65536)
    (hblock : block = pre ++ (u16 extType ++ (vec16 data ++ rest))) :
    findServerName block pre.length =
      if extType = 0 then serverName data
      else findServerName block (pre ++ (u16 extType ++ vec16 data)).length := by
  have hlen : block.length = pre.length + (2 + (2 + data.length + rest.length)) := by
    rw [hblock, List.length_append, List.length_append, u16_length, List.length_append,
      vec16_length]
  rw [findServerName, dif_pos (by omega)]
  refine Scan.bind_of_ok (uint16At_append pre htype hblock rfl) ?_
  refine Scan.bind_of_ok (uint16At_append (pre ++ u16 extType) hdata (q := data ++ rest)
    (by simp [hblock, vec16]) (by simp)) ?_
  refine Scan.bind_of_ok (refuseIf_neg (by omega)) ?_
  refine Scan.bind_of_ok (slice_append (pre ++ (u16 extType ++ u16 data.length)) data (q := rest)
    (by simp [hblock, vec16]) (by simp) rfl) ?_
  have hnext : pre.length + (4 + data.length) = (pre ++ (u16 extType ++ vec16 data)).length := by
    simp only [List.length_append, u16_length, vec16_length]
    omega
  rw [hnext]

theorem findServerName_of_first {rest body : Bytes} (h : FirstServerName rest body) :
    ∀ {block pre : Bytes}, block = pre ++ rest →
      findServerName block pre.length = serverName body := by
  induction h with
  | here hbody =>
    intro block pre hblock
    rw [findServerName_of_extension (by decide) hbody hblock, if_pos rfl]
  | skip hne htype hdata _ ih =>
    intro block pre hblock
    rw [findServerName_of_extension htype hdata hblock, if_neg hne]
    exact ih (by rw [hblock]; simp [List.append_assoc])

theorem first_of_findServerName {block s : Bytes} (eo : Nat) (h : findServerName block eo = .ok s) :
    ∃ body, FirstServerName (block.drop eo) body ∧ serverName body = .ok s := by
  induction eo using findServerName.induct block with
  | case1 eo hin ih =>
    rw [findServerName, dif_pos hin] at h
    obtain ⟨extType, htype, h⟩ := Scan.bind_eq_ok.mp h
    obtain ⟨extDataLen, hlen, h⟩ := Scan.bind_eq_ok.mp h
    obtain ⟨_, hguard, h⟩ := Scan.bind_eq_ok.mp h
    obtain ⟨data, hdata, h⟩ := Scan.bind_eq_ok.mp h
    have hblock : block = block.take eo ++ block.drop eo := (List.take_append_drop eo block).symm
    have heo : eo = (block.take eo).length := by
      rw [List.length_take_of_le (by omega)]
    obtain ⟨htlt, post, hpost⟩ := uint16At_split htype hblock heo
    rw [hpost, ← List.append_assoc] at hblock
    obtain ⟨hdlt, post', rfl⟩ := uint16At_split hlen hblock (by simp [← heo])
    rw [← List.append_assoc] at hblock
    obtain ⟨hend, rest, rfl⟩ := slice_split hdata hblock (by simp [← heo])
    obtain rfl : extDataLen = data.length := by omega
    have hshape : block.drop eo = u16 extType ++ (vec16 data ++ rest) := by
      rw [hpost, vec16, List.append_assoc]
    rw [hshape]
    by_cases hzero : extType = 0
    · subst hzero
      rw [if_pos rfl] at h
      exact ⟨data, .here hdlt, h⟩
    · rw [if_neg hzero] at h
      obtain ⟨body, hfirst, hname⟩ := ih data.length h
      refine ⟨body, .skip hzero htlt hdlt ?_, hname⟩
      -- the walk goes on behind this extension
      have hdrop : block.drop (eo + (4 + data.length)) = rest := by
        rw [← List.drop_drop, hshape, ← List.append_assoc]
        exact List.drop_left' (by simp; omega)
      rwa [hdrop] at hfirst
  | case2 eo hout =>
    rw [findServerName, dif_neg hout] at h
    cases h

/-- **`findServerName_eq_ok_iff`** — the walk over the block returns the host name in the body of the
first extension of type 0. -/
theorem findServerName_eq_ok_iff {block s : Bytes} :
    findServerName block 0 = .ok s ↔ ∃ body, FirstServerName block body ∧ HostName body s := by
  constructor
  · intro h
    obtain ⟨body, hfirst, hname⟩ := first_of_findServerName 0 h
    exact ⟨body, hfirst, (serverName_eq_ok_iff hfirst.length_lt).mp hname⟩
  · rintro ⟨body, hfirst, hname⟩
    have hwalk := findServerName_of_first hfirst (List.nil_append _).symm
    rw [List.length_nil] at hwalk
    rw [hwalk, serverName_eq_ok_iff hfirst.length_lt]
    exact hname

/-! ## The message -/

theorem handshake_of_message {d h hello : Bytes} (hm : Message d h) (hh : h = 0x01 :: hello) :
    handshake d = .ok h := by
  rcases hm with rfl | ⟨version, rest, hv, hlen, rfl⟩
  · refine Scan.bind_of_ok (index_append [] hh rfl) ?_
    rw [if_neg (by decide), if_pos rfl]
  · refine Scan.bind_of_ok (index_append [] rfl rfl) ?_
    rw [if_pos rfl]
    refine Scan.bind_of_ok (uint16At_append (0x16 :: version) hlen (q := h ++ rest)
      (by simp [vec16]) (by simp [hv])) ?_
    refine Scan.bind_of_ok (refuseIf_neg ?_) ?_
    · simp only [List.length_cons, List.length_append, vec16_length, hv]
      omega
    · exact slice_append (0x16 :: (version ++ u16 h.length)) h (q := rest) (by simp [vec16])
        (by simp [hv]) rfl

theorem message_of_handshake {d h : Bytes} (hd : 5 ≤ d.length) (hh : handshake d = .ok h) :
    Message d h := by
  obtain ⟨b0, hb0, hh⟩ := Scan.bind_eq_ok.mp hh
  obtain ⟨tail, rfl⟩ := index_split hb0 (List.nil_append _).symm rfl
  split at hh
  · rename_i htype
    subst htype
    obtain ⟨recordLen, hlen, hh⟩ := Scan.bind_eq_ok.mp hh
    obtain ⟨_, hguard, hh⟩ := Scan.bind_eq_ok.mp hh
    rw [List.length_cons] at hd
    obtain ⟨version, tail, rfl, hv⟩ : ∃ mid post, tail = mid ++ post ∧ mid.length = 2 :=
      exists_split (by omega)
    obtain ⟨hlt, post, rfl⟩ := uint16At_split (p := 0x16 :: version) hlen rfl (by simp [hv])
    obtain ⟨hend, rest, rfl⟩ := slice_split (p := 0x16 :: (version ++ u16 recordLen)) (r := post)
      hh (by simp) (by simp [hv])
    obtain rfl : recordLen = h.length := by omega
    exact Or.inr ⟨version, rest, hv, hlt, by rw [vec16, List.append_assoc]⟩
  · split at hh
    · exact Or.inl (Scan.ok.inj hh)
    · nomatch hh

/-- The fields before the extension block, read in source order: where a ClientHello stands, the
parser arrives at its extension block. -/
theorem extract_of_hello {d h block : Bytes} (hm : Message d h) (hh : Hello h block) :
    extractSNIFromClientHello d = findServerName block 0 := by
  obtain ⟨len, fixed, sessionID, cipherSuites, compression, rest, hl3, hf34, hsid, hcs, hcm, hbl,
    hshape⟩ := hh
  have hsid' : (UInt8.ofNat sessionID.length).toNat = sessionID.length := by
    rw [UInt8.toNat_ofNat', Nat.mod_eq_of_lt hsid]
  have hcm' : (UInt8.ofNat compression.length).toNat = compression.length := by
    rw [UInt8.toNat_ofNat', Nat.mod_eq_of_lt hcm]
  -- the hello behind type and length, and how long it is
  obtain ⟨hello, hhello⟩ : ∃ hello, hello = fixed ++ (vec8 sessionID ++ (vec16 cipherSuites ++
    (vec8 compression ++ (vec16 block ++ rest)))) := ⟨_, rfl⟩
  rw [← hhello] at hshape
  have hlen : hello.length = 34 + (1 + sessionID.length + (2 + cipherSuites.length +
      (1 + compression.length + (2 + block.length + rest.length)))) := by
    rw [hhello]
    simp only [List.length_append, vec8_length, vec16_length, hf34]
  have hhlen : h.length = 4 + hello.length := by
    rw [hshape, List.length_cons, List.length_append, hl3]
    omega
  have hdlen : h.length ≤ d.length := by
    rcases hm with rfl | ⟨version, rest, -, -, rfl⟩
    · exact le_rfl
    · simp only [List.length_cons, List.length_append, vec16_length]
      omega
  refine Scan.bind_of_ok (refuseIf_neg (by omega)) ?_
  refine Scan.bind_of_ok (handshake_of_message hm hshape) ?_
  refine Scan.bind_of_ok (refuseIf_neg (by omega)) ?_
  refine Scan.bind_of_ok (index_append [] hshape rfl) ?_
  refine Scan.bind_of_ok (refuseIf_neg (not_not_intro rfl)) ?_
  refine Scan.bind_of_ok (sliceFrom_append (p := 0x01 :: len) hshape (by simp [hl3])) ?_
  refine Scan.bind_of_ok (refuseIf_neg (by omega)) ?_
  refine Scan.bind_of_ok (refuseIf_neg (by omega)) ?_
  refine Scan.bind_of_ok (index_append fixed (by rw [hhello]; rfl) hf34.symm) ?_
  rw [hsid']
  refine Scan.bind_of_ok (refuseIf_neg (by omega)) ?_
  refine Scan.bind_of_ok (uint16At_append (fixed ++ vec8 sessionID) hcs
    (q := cipherSuites ++ (vec8 compression ++ (vec16 block ++ rest)))
    (by simp [hhello, vec16]) (by simp [hf34]; omega)) ?_
  refine Scan.bind_of_ok (refuseIf_neg (by omega)) ?_
  refine Scan.bind_of_ok (index_append (fixed ++ (vec8 sessionID ++ vec16 cipherSuites))
    (a := UInt8.ofNat compression.length) (q := compression ++ (vec16 block ++ rest))
    (by simp [hhello, vec8]) (by simp [hf34]; omega)) ?_
  rw [hcm']
  refine Scan.bind_of_ok (refuseIf_neg (by omega)) ?_
  refine Scan.bind_of_ok (uint16At_append
    (fixed ++ (vec8 sessionID ++ (vec16 cipherSuites ++ vec8 compression))) hbl
    (q := block ++ rest) (by simp [hhello, vec16]) (by simp [hf34]; omega)) ?_
  refine Scan.bind_of_ok (refuseIf_neg (by omega)) ?_
  refine Scan.bind_of_ok (slice_append
    (fixed ++ (vec8 sessionID ++ (vec16 cipherSuites ++ (vec8 compression ++ u16 block.length))))
    block (q := rest) (by simp [hhello, vec16]) (by simp [hf34]; omega) rfl) ?_
  rfl

/-- What the parser has read when it arrives at an extension block. -/
theorem hello_of_extract {d s : Bytes} (hd : extractSNIFromClientHello d = .ok s) :
    ∃ h block, Message d h ∧ Hello h block ∧ findServerName block 0 = .ok s := by
  obtain ⟨_, h5, hd⟩ := Scan.bind_eq_ok.mp hd
  obtain ⟨h, hh, hd⟩ := Scan.bind_eq_ok.mp hd
  obtain ⟨_, h4, hd⟩ := Scan.bind_eq_ok.mp hd
  obtain ⟨hsType, htype, hd⟩ := Scan.bind_eq_ok.mp hd
  obtain ⟨_, hone, hd⟩ := Scan.bind_eq_ok.mp hd
  obtain ⟨hello, hhello, hd⟩ := Scan.bind_eq_ok.mp hd
  obtain ⟨_, h34, hd⟩ := Scan.bind_eq_ok.mp hd
  obtain ⟨_, -, hd⟩ := Scan.bind_eq_ok.mp hd
  obtain ⟨sessionIDLen, hsid, hd⟩ := Scan.bind_eq_ok.mp hd
  obtain ⟨_, hsidIn, hd⟩ := Scan.bind_eq_ok.mp hd
  obtain ⟨csLen, hcs, hd⟩ := Scan.bind_eq_ok.mp hd
  obtain ⟨_, hcsIn, hd⟩ := Scan.bind_eq_ok.mp hd
  obtain ⟨cmLen, hcm, hd⟩ := Scan.bind_eq_ok.mp hd
  obtain ⟨_, hcmIn, hd⟩ := Scan.bind_eq_ok.mp hd
  obtain ⟨extLen, hext, hd⟩ := Scan.bind_eq_ok.mp hd
  obtain ⟨_, -, hd⟩ := Scan.bind_eq_ok.mp hd
  obtain ⟨block, hblock, hd⟩ := Scan.bind_eq_ok.mp hd
  rw [refuseIf_eq_ok] at h5 h4 hone h34 hsidIn hcsIn hcmIn
  refine ⟨h, block, message_of_handshake (by omega) hh, ?_, hd⟩
  -- type and three length bytes
  obtain ⟨tail, rfl⟩ := index_split htype (List.nil_append _).symm rfl
  obtain rfl : hsType = 0x01 := not_not.mp hone
  rw [List.length_cons] at h4
  obtain ⟨len, hello', rfl, hl3⟩ : ∃ mid post, tail = mid ++ post ∧ mid.length = 3 :=
    exists_split (by omega)
  have hcut : sliceFrom (0x01 :: (len ++ hello')) 4 = .ok hello' :=
    sliceFrom_append (p := 0x01 :: len) rfl (by simp [hl3])
  rw [hcut] at hhello
  obtain rfl : hello' = hello := Scan.ok.inj hhello
  -- version and random
  obtain ⟨fixed, tail, rfl, hf34⟩ : ∃ mid post, hello' = mid ++ post ∧ mid.length = 34 :=
    exists_split (by omega)
  -- session id
  obtain ⟨tail, rfl⟩ := index_split hsid rfl hf34.symm
  rw [List.length_append, List.length_cons, hf34] at hsidIn
  obtain ⟨sessionID, tail, rfl, hsidLen⟩ :
      ∃ mid post, tail = mid ++ post ∧ mid.length = sessionIDLen.toNat := exists_split (by omega)
  obtain rfl : sessionIDLen = UInt8.ofNat sessionID.length := by rw [hsidLen, UInt8.ofNat_toNat]
  have hsidLt : sessionID.length < 256 := hsidLen ▸ UInt8.toNat_lt _
  rw [← hsidLen] at hcs hcsIn hcm hcmIn hext hblock
  -- cipher suites
  obtain ⟨hcsLt, tail, rfl⟩ := uint16At_split (p := fixed ++ vec8 sessionID) (r := tail) hcs
    (by simp [vec8]) (by simp [hf34]; omega)
  simp only [List.length_append, List.length_cons, hf34, u16_length] at hcsIn
  obtain ⟨cipherSuites, tail, rfl, rfl⟩ : ∃ mid post, tail = mid ++ post ∧ mid.length = csLen :=
    exists_split (by omega)
  -- compression methods
  obtain ⟨tail, rfl⟩ := index_split (p := fixed ++ (vec8 sessionID ++ vec16 cipherSuites))
    (r := tail) hcm
    (by simp [vec8, vec16]) (by simp [hf34]; omega)
  simp only [List.length_append, List.length_cons, hf34, u16_length] at hcmIn
  obtain ⟨compression, tail, rfl, hcmLen⟩ :
      ∃ mid post, tail = mid ++ post ∧ mid.length = cmLen.toNat := exists_split (by omega)
  obtain rfl : cmLen = UInt8.ofNat compression.length := by rw [hcmLen, UInt8.ofNat_toNat]
  have hcmLt : compression.length < 256 := hcmLen ▸ UInt8.toNat_lt _
  rw [← hcmLen] at hext hblock
  -- extension block
  obtain ⟨hextLt, tail, rfl⟩ := uint16At_split
    (p := fixed ++ (vec8 sessionID ++ (vec16 cipherSuites ++ vec8 compression)))
    (r := tail) hext
    (by simp [vec8, vec16]) (by simp [hf34]; omega)
  obtain ⟨hend, rest, rfl⟩ := slice_split
    (p := fixed ++ (vec8 sessionID ++ (vec16 cipherSuites ++ (vec8 compression ++ u16 extLen))))
    (r := tail) hblock (by simp [vec8, vec16]) (by simp [hf34]; omega)
  obtain rfl : extLen = block.length := by omega
  exact ⟨len, fixed, sessionID, cipherSuites, compression, rest, hl3, hf34, hsidLt, hcsLt, hcmLt,
    hextLt, by simp [vec8, vec16]⟩

/-- **`extractSNIFromClientHello_eq_ok_iff`** — the parser returns `s` exactly on the byte strings
of the grammar that name `s`. -/
theorem extractSNIFromClientHello_eq_ok_iff {d s : Bytes} :
    extractSNIFromClientHello d = .ok s ↔ NamesHost d s := by
  constructor
  · intro h
    obtain ⟨msg, block, hm, hh, hwalk⟩ := hello_of_extract h
    obtain ⟨body, hfirst, hname⟩ := findServerName_eq_ok_iff.mp hwalk
    exact ⟨body, ⟨msg, block, hm, hh, hfirst⟩, hname⟩
  · rintro ⟨body, ⟨msg, block, hm, hh, hfirst⟩, hname⟩
    rw [extract_of_hello hm hh]
    exact findServerName_eq_ok_iff.mpr ⟨body, hfirst, hname⟩

/-- What is handed to `serverName` is what the grammar points at. -/
theorem extract_eq_serverName {d body : Bytes} (h : ServerNameBody d body) :
    extractSNIFromClientHello d = serverName body := by
  obtain ⟨msg, block, hm, hh, hfirst⟩ := h
  rw [extract_of_hello hm hh]
  exact findServerName_of_first hfirst (List.nil_append _).symm

/-- **`extractSNIFromClientHello_accepts`** — the parser returns a name exactly on the strings of
the grammar, refuses all others, and adds no two lengths beyond 2^16 on the way. -/
theorem extractSNIFromClientHello_accepts (d : Bytes) :
    (∀ s, extractSNIFromClientHello d = .ok s ↔ NamesHost d s) ∧
      (extractSNIFromClientHello d = .reject ↔ ∀ s, ¬ NamesHost d s) ∧
      ∀ body, ServerNameBody d body →
        extractSNIFromClientHello d = serverName body ∧ SumsFit body := by
  refine ⟨fun s => extractSNIFromClientHello_eq_ok_iff, ?_, ?_⟩
  · constructor
    · intro hreject s hs
      rw [extractSNIFromClientHello_eq_ok_iff.mpr hs] at hreject
      nomatch hreject
    · intro hnone
      cases hd : extractSNIFromClientHello d with
      | reject => rfl
      | ok s => exact absurd (extractSNIFromClientHello_eq_ok_iff.mp hd) (hnone s)
      | panic => exact absurd hd (extractSNIFromClientHello_safe d).ne_panic
  · intro body hbody
    refine ⟨extract_eq_serverName hbody, ?_⟩
    obtain ⟨_, _, _, _, hfirst⟩ := hbody
    exact sumsFit_of_length_lt hfirst.length_lt

end ProxyGateway.Quic
