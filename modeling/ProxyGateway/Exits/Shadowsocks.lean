/-
# ProxyGateway.Exits.Shadowsocks — the three spellings of an `ss://` link

Nothing in an `ss://` link says how it is spelled.  `parse_ss` takes a link with an `@` for one with a
server in clear; of its userinfo `decode_ss_userinfo` first asks whether it is base64, and the
decoders it asks skip what is no base64.  So `aes-256-gcm:secret` may decode as well, and what
protects the plaintext spelling is the method: `misreads` says of a method that its first three
characters, read as base64, are no beginning of a method followed by a colon.  All of `SS_METHODS`
have that property (`misreads_of_mem`), and two bytes are enough for it, whatever the password.

`SsLink` lists the spellings, `parseSs_links` is the result.
-/
import ProxyGateway.Exits.Uri
import ProxyGateway.Lang.Codecs

namespace ProxyGateway.Exits

open ProxyGateway.Lang

/-! ## The links -/

/-- `SS_METHODS`. -/
def ssMethods : List Text :=
  [lit "2022-blake3-aes-128-gcm", lit "2022-blake3-aes-256-gcm",
    lit "2022-blake3-chacha20-poly1305",
    lit "aes-128-gcm", lit "aes-192-gcm", lit "aes-256-gcm",
    lit "chacha20-ietf-poly1305", lit "xchacha20-ietf-poly1305",
    lit "chacha20-ietf", lit "aes-128-ctr", lit "aes-256-ctr",
    lit "aes-128-cfb", lit "aes-256-cfb", lit "rc4-md5", lit "none", lit "plain"]

/-- A host as a link carries it: a name or an address, an IPv6 address in brackets. -/
structure LinkHost where
  text : Text
  bracketed : Bool
  nonempty : text ≠ []
  plain : ∀ c ∈ text, isSpace c = false ∧ c ∉ lit "@/?#[]"

def LinkHost.written (h : LinkHost) : Text :=
  if h.bracketed then '[' :: (h.text ++ [']']) else h.text

/-- `host:port`. -/
def LinkHost.withPort (h : LinkHost) (port : Nat) : Text := h.written ++ ':' :: decimal port

def tagText : Option Text → Text
  | none => []
  | some tag => '#' :: tag

/-- A link without its tag, and the tag. -/
def ssUri (body : Text) (tag : Option Text) : Text := lit "ss://" ++ (body ++ tagText tag)

/-- The links to a server. -/
inductive SsLink (method password : Text) (host : LinkHost) (port : Nat) : Text → Prop where
  /-- `ss://b64(method:password)@host:port` -/
  | sip002 (a : Alphabet) (pad : Bool) (tag : Option Text) :
      SsLink method password host port
        (ssUri (base64 a pad (encodeUtf8 (method ++ ':' :: password)) ++ '@' :: host.withPort port) tag)
  /-- `ss://method:password@host:port`, the password percent-encoded -/
  | plaintext {quoted : Text} (hquotes : Quotes quoted password) (hhash : '#' ∉ quoted)
      (hquestion : '?' ∉ quoted) (tag : Option Text) :
      SsLink method password host port
        (ssUri (method ++ ':' :: quoted ++ '@' :: host.withPort port) tag)
  /-- `ss://b64(method:password@host:port)` -/
  | legacy (a : Alphabet) (pad : Bool) (tag : Option Text) :
      SsLink method password host port
        (ssUri (base64 a pad (encodeUtf8 (method ++ ':' :: password ++ '@' :: host.withPort port))) tag)

/-- The library as Python documents it, as far as `parse_ss` calls it. -/
structure Documented (L : Library) : Prop where
  urlsafeB64decode : ∀ t, L.urlsafeB64decode t = (Lang.urlsafeB64decode t).bind decodeUtf8
  b64decode : ∀ t, L.b64decode t = (Lang.b64decode t).bind decodeUtf8
  unquote : ∀ t, L.unquote t = Lang.unquote t
  isDecimal : ∀ c, c.isDigit = true → L.isDecimal c = true
  int : ∀ n : Nat, n ≤ 65535 → L.int (.str (decimal n)) = some (n : Int)

/-! ## Host and port -/

section HostPort

variable {h : LinkHost} {port : Nat}

/-- What a digit is not. -/
theorem not_mem_marks_of_isDigit {c : Char} (h : c.isDigit = true) :
    isSpace c = false ∧ c ∉ lit "@/?#[]:" := by
  have hmarks : ∀ m ∈ lit "@/?#[]:", m.isDigit = false :=
    List.all_iff_forall_prop.mp (by decide)
  constructor
  · have hrange := isDigit_range h
    simp only [isSpace, Bool.or_eq_false_iff, Bool.and_eq_false_iff, decide_eq_false_iff_not,
      beq_eq_false_iff_ne]
    omega
  · intro hmem
    rw [hmarks c hmem] at h
    nomatch h

theorem mem_written {c : Char} (hc : c ∈ h.written) : c ∈ h.text ∨ c ∈ lit "[]" := by
  unfold LinkHost.written at hc
  split at hc
  · rcases List.mem_cons.mp hc with rfl | hc
    · exact .inr (by decide)
    rcases List.mem_append.mp hc with hc | hc
    · exact .inl hc
    · obtain rfl := List.mem_singleton.mp hc
      exact .inr (by decide)
  · exact .inl hc

/-- Nothing in `host:port` is cut off. -/
theorem mem_withPort {c : Char} (hc : c ∈ h.withPort port) :
    isSpace c = false ∧ c ∉ lit "@/?#" := by
  have hsub : ∀ m ∈ lit "@/?#", m ∈ lit "@/?#[]" ∧ m ∈ lit "@/?#[]:" ∧ m ∉ lit "[]" ∧ m ≠ ':' :=
    List.all_iff_forall_prop.mp (by decide)
  rcases List.mem_append.mp hc with hc | hc
  · rcases mem_written hc with hc | hc
    · exact ⟨(h.plain c hc).1, fun hmem => (h.plain c hc).2 (hsub c hmem).1⟩
    · have hbracket : ∀ m ∈ lit "[]", isSpace m = false := List.all_iff_forall_prop.mp (by decide)
      exact ⟨hbracket c hc, fun hmem => (hsub c hmem).2.2.1 hc⟩
  rcases List.mem_cons.mp hc with rfl | hc
  · exact ⟨rfl, fun hmem => (hsub ':' hmem).2.2.2 rfl⟩
  · obtain ⟨hspace, hmarks⟩ := not_mem_marks_of_isDigit (decimal_digits port c hc)
    exact ⟨hspace, fun hmem => hmarks (hsub c hmem).2.1⟩

theorem written_ne_nil : h.written ≠ [] := by
  unfold LinkHost.written
  split
  · exact List.cons_ne_nil _ _
  · exact h.nonempty

/-- The regular expression for brackets looks at the first character, the last and the length. -/
theorem bracketed_iff :
    (h.written.head? = some '[' ∧ h.written.getLast? = some ']' ∧ 3 ≤ h.written.length) ↔
      h.bracketed = true := by
  have hlen : 0 < h.text.length := List.length_pos_iff.mpr h.nonempty
  unfold LinkHost.written
  split
  · next hb =>
    refine iff_of_true ⟨rfl, ?_, ?_⟩ hb
    · rw [← List.cons_append, List.getLast?_concat]
    · simp only [List.length_cons, List.length_append, List.length_nil]
      omega
  · next hb =>
    apply iff_of_false _ hb
    rintro ⟨hhead, -⟩
    exact (h.plain '[' (List.mem_of_mem_head? hhead)).2 (by decide)

/-- No mark in it ends the server. -/
theorem takeWhile_withPort : ((h.withPort port).takeWhile fun c => c != '/' && c != '?' && c != '#') =
    h.withPort port := by
  rw [List.takeWhile_eq_self_iff]
  intro c hc
  have hmarks := (mem_withPort hc).2
  simp only [lit, String.reduceToList, List.mem_cons, List.not_mem_nil, or_false, not_or] at hmarks
  simp [hmarks]

/-- **`parseHostport_withPort`** — the host comes back without its brackets. -/
theorem parseHostport_withPort {L : Library} (hL : Documented L) (hport : port ≤ 65535) :
    parseHostport L (h.withPort port) = some (.str h.text, .int port) := by
  have hstrip : strip (h.withPort port) = h.withPort port :=
    strip_of_noSpace fun c hc => (mem_withPort hc).1
  have hsplit : rsplit1 ':' (h.withPort port) = some (h.written, decimal port) :=
    rsplit1_append (colon_not_mem_decimal port) _
  have hdigits : (decimal port).all L.isDecimal = true := by
    rw [List.all_eq_true]
    intro c hc
    exact hL.isDecimal c (decimal_digits port c hc)
  have hdigits' : (decimal port).isEmpty = false := List.isEmpty_eq_false_iff.mpr Nat.toDigits_ne_nil
  have hhost : h.written.isEmpty = false := List.isEmpty_eq_false_iff.mpr written_ne_nil
  have hline : h.written.contains '\n' = false := by
    rw [Bool.eq_false_iff, Ne, List.contains_iff_mem]
    intro hmem
    have hmem' : '\n' ∈ h.withPort port := List.mem_append_left _ hmem
    nomatch (mem_withPort hmem').1
  simp only [parseHostport, hstrip, takeWhile_withPort, hsplit, hdigits, hdigits', hhost, hline,
    hL.int port hport, bracketed_iff, Option.bind_eq_bind, Option.bind_some, Bool.not_true, Bool.or_false,
    Bool.false_eq_true, if_false]
  split
  · next hb =>
    have hinner : (h.written.drop 1).dropLast = h.text := by
      rw [LinkHost.written, if_pos hb]
      exact List.dropLast_concat
    rw [hinner]
    rfl
  · next hb =>
    rw [LinkHost.written, if_neg hb]
    rfl

end HostPort

/-! ## Base64 or not -/

section Userinfo

variable {L : Library} {method password : Text}

theorem b64decodeAny_base64 (hL : Documented L) (a : Alphabet) (pad : Bool) (t : Text) :
    b64decodeAny L (base64 a pad (encodeUtf8 t)) = some t := by
  have hstrip : strip (base64 a pad (encodeUtf8 t)) = base64 a pad (encodeUtf8 t) := by
    apply strip_of_noSpace
    intro c hc
    rcases mem_base64 hc with ⟨v, hv, rfl⟩ | rfl
    · exact (digit_plain a v hv).2.1
    · rfl
  have hread : L.urlsafeB64decode (padded (base64 a pad (encodeUtf8 t))) = some t := by
    rw [hL.urlsafeB64decode, urlsafeB64decode_base64, Option.bind_some]
    exact decodeUtf8_eq_some.mpr rfl
  show (L.urlsafeB64decode (padded (strip (base64 a pad (encodeUtf8 t))))).or _ = some t
  rw [hstrip, hread]
  rfl

/-- The characters of a method. -/
def isMethodChar (c : Char) : Bool := c.isLower || c.isDigit || c == '-'

/-- Read as base64, the first three characters of a method are no beginning of a method followed by
a colon. -/
def misreads (method : Text) : Bool :=
  match method with
  | a :: b :: c :: _ =>
    match sextet a, sextet b, sextet c with
    | some u, some v, some w =>
      let first := Char.ofNat (u * 4 + v / 16)
      let second := Char.ofNat (v % 16 * 16 + w / 4)
      [a, b, c].all (fun d => fromUrlSafe d == d && !isSpace d)
        && !(isMethodChar first && (isMethodChar second || second == ':' || second == '\n'))
    | _, _, _ => false
  | _ => false

theorem misreads_of_mem : ∀ method ∈ ssMethods, misreads method = true := by decide

theorem methodChars_of_mem (hmethod : method ∈ ssMethods) :
    isMethodName method = true ∧ ∀ c ∈ method, isMethodChar c = true := by
  have hall : ∀ method ∈ ssMethods,
      isMethodName method = true ∧ method.all isMethodChar = true := by decide
  obtain ⟨hname, hchars⟩ := hall method hmethod
  exact ⟨hname, List.all_eq_true.mp hchars⟩

/-- A method character is ASCII, and it is none of the marks. -/
theorem not_mem_marks_of_isMethodChar {c : Char} (h : isMethodChar c = true) :
    isAscii c = true ∧ isSpace c = false ∧ c ∉ lit "@/?#%:" := by
  have hmarks : ∀ m ∈ lit "@/?#%:", isMethodChar m = false :=
    List.all_iff_forall_prop.mp (by decide)
  have hrange : (97 ≤ c.toNat ∧ c.toNat ≤ 122) ∨ (48 ≤ c.toNat ∧ c.toNat ≤ 57) ∨ c.toNat = 45 := by
    simp only [isMethodChar, Bool.or_eq_true, beq_iff_eq] at h
    rcases h with (h | h) | rfl
    · exact .inl (isLower_iff.mp h)
    · exact .inr (.inl (isDigit_range h))
    · exact .inr (.inr rfl)
  refine ⟨?_, ?_, ?_⟩
  · apply decide_eq_true
    omega
  · simp only [isSpace, Bool.or_eq_false_iff, Bool.and_eq_false_iff, decide_eq_false_iff_not,
      beq_eq_false_iff_ne]
    omega
  · intro hmem
    rw [hmarks c hmem] at h
    nomatch h

theorem not_mem_method (hmethod : method ∈ ssMethods) {c : Char} (hc : c ∈ lit "@/?#%:") :
    c ∉ method := by
  intro hmem
  have hchar := (methodChars_of_mem hmethod).2 c hmem
  exact (not_mem_marks_of_isMethodChar hchar).2.2 hc

/-- What the regular expression of `decode_ss_userinfo` lets pass. -/
theorem exists_of_isMethodName {m : Text} (h : isMethodName m = true) :
    ∃ c m', m = c :: m' ∧ isMethodChar c = true ∧ ∀ d ∈ m', isMethodChar d = true ∨ d = '\n' := by
  obtain ⟨t, last, rfl, hlast, hne, hall⟩ : ∃ t last, m = t ++ last ∧ (∀ d ∈ last, d = '\n') ∧
      (!t.isEmpty) = true ∧ t.all isMethodChar = true := by
    unfold isMethodName at h
    split at h
    · next hlast =>
      obtain ⟨t, rfl⟩ := List.getLast?_eq_some_iff.mp hlast
      simp only [List.dropLast_concat, Bool.and_eq_true] at h
      exact ⟨t, ['\n'], rfl, fun d hd => List.mem_singleton.mp hd, h.1, h.2⟩
    · simp only [Bool.and_eq_true] at h
      exact ⟨m, [], (List.append_nil m).symm, nofun, h.1, h.2⟩
  have hchars := List.all_eq_true.mp hall
  cases t with
  | nil => nomatch hne
  | cons c t =>
    refine ⟨c, t ++ last, rfl, hchars c (List.mem_cons_self ..), ?_⟩
    intro d hd
    rcases List.mem_append.mp hd with hd | hd
    · exact .inl (hchars d (List.mem_cons_of_mem _ hd))
    · exact .inr (hlast d hd)

/-- The first two bytes of a text that the regular expression lets pass. -/
theorem encodeUtf8_of_isMethodName {m p : Text} (h : isMethodName m = true) :
    ∃ c d more, encodeUtf8 (m ++ ':' :: p) = UInt8.ofNat c.toNat :: UInt8.ofNat d.toNat :: more ∧
      c.toNat < 256 ∧ d.toNat < 256 ∧ isMethodChar c = true ∧
      (isMethodChar d = true ∨ d = ':' ∨ d = '\n') := by
  have hlt : ∀ c : Char, isAscii c = true → c.toNat < 256 := by
    intro c hc
    have := of_decide_eq_true hc
    omega
  obtain ⟨c, m', rfl, hc, hm'⟩ := exists_of_isMethodName h
  have hcascii := (not_mem_marks_of_isMethodChar hc).1
  cases m' with
  | nil =>
    refine ⟨c, ':', encodeUtf8 p, ?_, hlt c hcascii, hlt ':' rfl, hc, .inr (.inl rfl)⟩
    show encodeUtf8 (c :: ':' :: p) = _
    rw [encodeUtf8_cons_ascii hcascii, encodeUtf8_cons_ascii rfl]
  | cons d m' =>
    have hd := hm' d (List.mem_cons_self ..)
    have hdascii : isAscii d = true := by
      rcases hd with hd | rfl
      · exact (not_mem_marks_of_isMethodChar hd).1
      · rfl
    refine ⟨c, d, encodeUtf8 (m' ++ ':' :: p), ?_, hlt c hcascii, hlt d hdascii, hc,
      hd.imp_right .inr⟩
    show encodeUtf8 (c :: d :: (m' ++ ':' :: p)) = _
    rw [encodeUtf8_cons_ascii hcascii, encodeUtf8_cons_ascii hdascii]

theorem of_misreads (h : misreads method = true) :
    ∃ a b c rest u v w, method = a :: b :: c :: rest ∧
      sextet a = some u ∧ sextet b = some v ∧ sextet c = some w ∧
      (∀ d ∈ [a, b, c], fromUrlSafe d = d ∧ isSpace d = false) ∧
      ¬ (isMethodChar (Char.ofNat (u * 4 + v / 16)) = true ∧
        (isMethodChar (Char.ofNat (v % 16 * 16 + w / 4)) = true ∨
          Char.ofNat (v % 16 * 16 + w / 4) = ':' ∨ Char.ofNat (v % 16 * 16 + w / 4) = '\n')) := by
  unfold misreads at h
  split at h
  · next a b c rest =>
    split at h
    · next u v w ha hb hc =>
      simp only [Bool.and_eq_true, List.all_eq_true, beq_iff_eq, Bool.not_eq_true',
        Bool.or_eq_true, Bool.eq_false_iff, Ne] at h
      obtain ⟨hsame, hbad⟩ := h
      refine ⟨a, b, c, rest, u, v, w, rfl, ha, hb, hc, ?_, ?_⟩
      · intro d hd
        exact ⟨(hsame d hd).1, Bool.eq_false_iff.mpr (hsame d hd).2⟩
      · rwa [or_assoc] at hbad
    · nomatch h
  · nomatch h

/-- **`decode_not_method`** — what the decoders make of `method:…`, if anything, is not taken for
credentials. -/
theorem decode_not_method (hL : Documented L) (hmethod : method ∈ ssMethods) {t dec m p : Text}
    (hdec : b64decodeAny L (method ++ ':' :: t) = some dec)
    (hsplit : split1 ':' dec = some (m, p)) : isMethodName m = false := by
  obtain ⟨a, b, c, rest, u, v, w, rfl, ha, hb, hc, hsame, hbad⟩ :=
    of_misreads (misreads_of_mem method hmethod)
  have hkeep : ∀ d ∈ [a, b, c], fromUrlSafe d = d := fun d hd => (hsame d hd).1
  have hstrip : strip (a :: b :: c :: rest ++ ':' :: t) =
      a :: b :: c :: (rest ++ ':' :: t.rdropWhile isSpace) := by
    rw [strip_append_cons rfl, List.dropWhile_cons_of_neg (by simp [(hsame a (by simp)).2])]
    rfl
  -- both decoders see the first three characters of the method first
  have hread : ∃ tail bytes, a2bBase64 0 0 0 (a :: b :: c :: tail) = some bytes ∧
      decodeUtf8 bytes = some dec := by
    rw [b64decodeAny, hstrip] at hdec
    rcases Option.or_eq_some_iff.mp hdec with hdec | ⟨-, hdec⟩
    · rw [hL.urlsafeB64decode] at hdec
      obtain ⟨bytes, hbytes, hutf8⟩ := Option.bind_eq_some_iff.mp hdec
      have hdigits := a2bBase64_of_b64decode hbytes
      simp only [List.cons_append, List.map_cons, hkeep a (by simp), hkeep b (by simp),
        hkeep c (by simp)] at hdigits
      exact ⟨_, bytes, hdigits, hutf8⟩
    · rw [hL.b64decode] at hdec
      obtain ⟨bytes, hbytes, hutf8⟩ := Option.bind_eq_some_iff.mp hdec
      exact ⟨_, bytes, a2bBase64_of_b64decode hbytes, hutf8⟩
  obtain ⟨tail, bytes, hbytes, hutf8⟩ := hread
  obtain ⟨more, rfl⟩ := a2bBase64_opening ha hb hc hbytes
  by_contra hname
  rw [Bool.not_eq_false] at hname
  obtain ⟨first, second, more', hencode, hfirst, hsecond, hok, hok'⟩ :=
    encodeUtf8_of_isMethodName (p := p) hname
  rw [← eq_of_split1 hsplit, ← decodeUtf8_eq_some.mp hutf8] at hencode
  obtain ⟨hbyte, hrest⟩ := List.cons.inj hencode
  obtain ⟨hbyte', -⟩ := List.cons.inj hrest
  have hu := sextet_lt ha
  have hv := sextet_lt hb
  have hw := sextet_lt hc
  have heq : Char.ofNat (u * 4 + v / 16) = first := by
    rw [ofNat_inj (by omega) hfirst hbyte, Char.ofNat_toNat]
  have heq' : Char.ofNat (v % 16 * 16 + w / 4) = second := by
    rw [ofNat_inj (by omega) hsecond hbyte', Char.ofNat_toNat]
  rw [heq, heq'] at hbad
  exact hbad ⟨hok, hok'⟩

theorem decodeSsUserinfo_base64 (hL : Documented L) (hmethod : method ∈ ssMethods) (a : Alphabet)
    (pad : Bool) (password : Text) :
    decodeSsUserinfo L (base64 a pad (encodeUtf8 (method ++ ':' :: password))) =
      some (method, password) := by
  have hname := (methodChars_of_mem hmethod).1
  have hcolon : ':' ∉ method := not_mem_method hmethod (by decide)
  simp only [decodeSsUserinfo, b64decodeAny_base64 hL, split1_append hcolon, Option.bind_eq_bind,
    Option.bind_some, hname, if_true, Option.some_or]

/-- The first reading of the userinfo, as Base64. -/
def decodedUserinfo (L : Library) (userinfo : Text) : Option (Text × Text) := do
  let dec ← b64decodeAny L userinfo
  let (m, p) ← split1 ':' dec
  if isMethodName m then some (m, p) else none

theorem decodedUserinfo_plaintext (hL : Documented L) (hmethod : method ∈ ssMethods) (quoted : Text) :
    decodedUserinfo L (method ++ ':' :: quoted) = none := by
  rw [Option.eq_none_iff_forall_ne_some]
  rintro ⟨m, p⟩ hsome
  obtain ⟨dec, hdec, hsome⟩ := Option.bind_eq_some_iff.mp hsome
  obtain ⟨⟨m', p'⟩, hsplit, hsome⟩ := Option.bind_eq_some_iff.mp hsome
  simp only [decode_not_method hL hmethod hdec hsplit] at hsome
  cases hsome

theorem decodeSsUserinfo_plaintext (hL : Documented L) (hmethod : method ∈ ssMethods)
    {quoted : Text} (hquotes : Quotes quoted password) :
    decodeSsUserinfo L (method ++ ':' :: quoted) = some (method, password) := by
  have hcolon : ':' ∉ method := not_mem_method hmethod (by decide)
  have hpercent : '%' ∉ method := not_mem_method hmethod (by decide)
  have hplain : Lang.unquote (method ++ ':' :: quoted) = method ++ ':' :: password :=
    unquote_of_quotes ((Quotes.raw (by decide) hquotes).raw_append hpercent)
  have hreadings : decodeSsUserinfo L (method ++ ':' :: quoted) =
      (decodedUserinfo L (method ++ ':' :: quoted)).or
        (split1 ':' (L.unquote (method ++ ':' :: quoted))) := rfl
  rw [hreadings, decodedUserinfo_plaintext hL hmethod, hL.unquote, hplain, split1_append hcolon]
  rfl

end Userinfo

/-! ## The links are read back -/

section Links

variable {L : Library} {method password uri : Text} {host : LinkHost} {port : Nat}

/-- What is left of a link before anything is decoded. -/
theorem before_ssUri {body : Text} (hhash : '#' ∉ body) (hquestion : '?' ∉ body)
    (tag : Option Text) : before '?' (before '#' ((ssUri body tag).drop 5)) = body := by
  have hdrop : (ssUri body tag).drop 5 = body ++ tagText tag := rfl
  have hcut : before '#' (tagText tag) = [] := by
    cases tag with
    | none => rfl
    | some tag => rfl
  rw [hdrop, before_append_of_not_mem hhash, hcut, List.append_nil, before_of_not_mem hquestion]

theorem not_mem_base64 {c : Char} (hc : c ∈ lit "#?@") (a : Alphabet) (pad : Bool)
    (bytes : List UInt8) : c ∉ base64 a pad bytes := by
  have hsub : ∀ m ∈ lit "#?@", m ∈ lit "=#?@" ∧ m ≠ '=' :=
    List.all_iff_forall_prop.mp (by decide)
  intro hmem
  rcases mem_base64 hmem with ⟨v, hv, rfl⟩ | rfl
  · exact (digit_plain a v hv).2.2 (hsub _ hc).1
  · exact (hsub _ hc).2 rfl

theorem not_mem_append_cons {c m : Char} {x y : Text} (hx : c ∉ x) (hm : c ≠ m) (hy : c ∉ y) :
    c ∉ x ++ m :: y := by
  intro hmem
  rcases List.mem_append.mp hmem with hmem | hmem
  · exact hx hmem
  rcases List.mem_cons.mp hmem with heq | hmem
  · exact hm heq
  · exact hy hmem

theorem not_mem_withPort {c : Char} (hc : c ∈ lit "@/?#") : c ∉ host.withPort port :=
  fun hmem => (mem_withPort hmem).2 hc

/-- A link with its server in clear. -/
theorem parseSs_server (hL : Documented L) (hport : port ≤ 65535) {userinfo : Text}
    (hhash : '#' ∉ userinfo) (hquestion : '?' ∉ userinfo)
    (hinfo : decodeSsUserinfo L userinfo = some (method, password)) (tag : Option Text) :
    parseSs L (ssUri (userinfo ++ '@' :: host.withPort port) tag) =
      some (.str host.text, .int port, method, password) := by
  have hhash' : '#' ∉ userinfo ++ '@' :: host.withPort port :=
    not_mem_append_cons hhash (by decide) (not_mem_withPort (by decide))
  have hquestion' : '?' ∉ userinfo ++ '@' :: host.withPort port :=
    not_mem_append_cons hquestion (by decide) (not_mem_withPort (by decide))
  have hserver : '@' ∉ host.withPort port := not_mem_withPort (by decide)
  simp only [parseSs, before_ssUri hhash' hquestion' tag, rsplit1_append hserver, hinfo,
    parseHostport_withPort hL hport, Option.bind_eq_bind, Option.bind_some]
  rfl

/-- A link with everything in base64. -/
theorem parseSs_legacy (hL : Documented L) (hmethod : method ∈ ssMethods) (hport : port ≤ 65535)
    (a : Alphabet) (pad : Bool) (tag : Option Text) :
    parseSs L (ssUri (base64 a pad
        (encodeUtf8 (method ++ ':' :: password ++ '@' :: host.withPort port))) tag) =
      some (.str host.text, .int port, method, password) := by
  have hcolon : ':' ∉ method := not_mem_method hmethod (by decide)
  have hserver : '@' ∉ host.withPort port := not_mem_withPort (by decide)
  have hbefore := before_ssUri (not_mem_base64 (c := '#') (by decide) a pad _)
    (not_mem_base64 (c := '?') (by decide) a pad
      (encodeUtf8 (method ++ ':' :: password ++ '@' :: host.withPort port))) tag
  have hclear : rsplit1 '@' (base64 a pad
      (encodeUtf8 (method ++ ':' :: password ++ '@' :: host.withPort port))) = none :=
    if_neg (not_mem_base64 (by decide) a pad _)
  have hpayload : ¬ ('@' ∉ method ++ ':' :: password ++ '@' :: host.withPort port ∨
      ':' ∉ method ++ ':' :: password ++ '@' :: host.withPort port) := by simp
  simp only [parseSs, hbefore, hclear, b64decodeAny_base64 hL, Option.bind_eq_bind,
    Option.bind_some, if_neg hpayload, rsplit1_append hserver, split1_append hcolon,
    parseHostport_withPort hL hport]
  rfl

/-- **`parseSs_links`** — every link to a server is read back to its host, port, method and password,
and no plaintext userinfo is read as base64. -/
theorem parseSs_links (hL : Documented L) (hmethod : method ∈ ssMethods) (hport : port ≤ 65535) :
    (∀ uri, SsLink method password host port uri →
      parseSs L uri = some (.str host.text, .int port, method, password)) ∧
    ∀ quoted dec m p, b64decodeAny L (method ++ ':' :: quoted) = some dec →
      split1 ':' dec = some (m, p) → isMethodName m = false := by
  constructor
  · intro uri hlink
    cases hlink with
    | sip002 a pad tag =>
      apply parseSs_server hL hport (not_mem_base64 (by decide) a pad _)
        (not_mem_base64 (by decide) a pad _)
      exact decodeSsUserinfo_base64 hL hmethod a pad password
    | plaintext hquotes hhash hquestion tag =>
      have hhash' : '#' ∉ method ++ ':' :: _ :=
        not_mem_append_cons (not_mem_method hmethod (by decide)) (by decide) hhash
      have hquestion' : '?' ∉ method ++ ':' :: _ :=
        not_mem_append_cons (not_mem_method hmethod (by decide)) (by decide) hquestion
      apply parseSs_server hL hport hhash' hquestion'
      exact decodeSsUserinfo_plaintext hL hmethod hquotes
    | legacy a pad tag => exact parseSs_legacy hL hmethod hport a pad tag
  · intro quoted dec m p hdec hsplit
    exact decode_not_method hL hmethod hdec hsplit

end Links

/-! ## Two links -/

/-- The codecs, and integers in ASCII digits. -/
def codecLibrary : Library where
  lower t := t.map Char.toLower
  unquote := Lang.unquote
  unquote_ne_nil _ h := Lang.unquote_ne_nil h
  urlparse _ := none
  parseQs _ := []
  urlsafeB64decode t := (Lang.urlsafeB64decode t).bind decodeUtf8
  b64decode t := (Lang.b64decode t).bind decodeUtf8
  loads _ := none
  int v := v.asStr.bind fun t =>
    if t ≠ [] ∧ t.all Char.isDigit then some (Nat.ofDigitChars 10 t 0) else none
  str _ := []
  isDecimal := Char.isDigit
  isdigit t := t.all Char.isDigit
  isIpAddress _ := false

theorem codecLibrary_documented : Documented codecLibrary where
  urlsafeB64decode _ := rfl
  b64decode _ := rfl
  unquote _ := rfl
  isDecimal _ h := h
  int n _ := by
    have hdigits : decimal n ≠ [] ∧ (decimal n).all Char.isDigit = true :=
      ⟨Nat.toDigits_ne_nil, List.all_eq_true.mpr (decimal_digits n)⟩
    have hvalue : Nat.ofDigitChars 10 (decimal n) 0 = n :=
      Nat.ofDigitChars_toDigits (by omega) (by omega)
    show (if decimal n ≠ [] ∧ (decimal n).all Char.isDigit = true then
      some ((Nat.ofDigitChars 10 (decimal n) 0 : Nat) : Int) else none) = some (n : Int)
    rw [if_pos hdigits, hvalue]

def sampleHost : LinkHost where
  text := lit "5.6.7.8"
  bracketed := false
  nonempty := by decide
  plain := List.all_iff_forall_prop.mp (by decide)

/-- A password with every mark that cuts a link. -/
theorem parseSs_links_marks :
    parseSs codecLibrary (lit "ss://YWVzLTI1Ni1nY206cHc=@5.6.7.8:8388") =
        some (.str (lit "5.6.7.8"), .int 8388, lit "aes-256-gcm", lit "pw") ∧
      parseSs codecLibrary (lit "ss://rc4-md5:p%40ss%3Aw%2Frd%231%3F@5.6.7.8:8388#us") =
        some (.str (lit "5.6.7.8"), .int 8388, lit "rc4-md5", lit "p@ss:w/rd#1?") := by
  constructor
  · have huri : lit "ss://YWVzLTI1Ni1nY206cHc=@5.6.7.8:8388" = ssUri (base64 .standard true
        (encodeUtf8 (lit "aes-256-gcm" ++ ':' :: lit "pw")) ++ '@' :: sampleHost.withPort 8388) none := by
      decide
    rw [huri]
    exact (parseSs_links codecLibrary_documented (by decide) (by omega)).1 _
      (.sip002 .standard true none)
  · have hquoted : lit "p%40ss%3Aw%2Frd%231%3F" = quote (lit "p@ss:w/rd#1?") := by decide
    have hplain := quote_plain (lit "p@ss:w/rd#1?")
    have huri : lit "ss://rc4-md5:p%40ss%3Aw%2Frd%231%3F@5.6.7.8:8388#us" =
        ssUri (lit "rc4-md5" ++ ':' :: quote (lit "p@ss:w/rd#1?") ++
          '@' :: sampleHost.withPort 8388) (some (lit "us")) := by
      rw [← hquoted]
      decide
    rw [huri]
    exact (parseSs_links codecLibrary_documented (by decide) (by omega)).1 _
      (.plaintext (quotes_quote _) (fun h => hplain '#' h (by decide))
        (fun h => hplain '?' h (by decide)) _)

end ProxyGateway.Exits
