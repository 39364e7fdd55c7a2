/-
# ProxyGateway.Lang.Codecs — text and bytes: UTF-8, base64, percent-encoding

The three codings in which credentials travel in a link, each with the decoder of Python's standard
library.  Two of the decoders are lenient.  `binascii.a2b_base64` skips every character that is no
digit of base64, so a text that was never encoded may well decode; `urllib.parse.unquote` leaves what
is no escape as it is, and puts a replacement character for bytes that are no UTF-8.

The round trips are `decodeUtf8_eq_some`, `urlsafeB64decode_base64` in both alphabets with and without
padding, and `unquote_of_quotes` for every way to escape a text.  `a2bBase64_opening` is what a
lenient decoder cannot escape: the first three digits fix the first two bytes.
-/
import ProxyGateway.Lang.Text

namespace ProxyGateway.Lang

/-! ## UTF-8 -/

/-- `t.encode("utf-8")`. -/
def encodeUtf8 (t : Text) : List UInt8 := t.flatMap String.utf8EncodeChar

/-- `bytes.decode("utf-8")`. -/
def decodeUtf8 (bytes : List UInt8) : Option Text := bytes.toByteArray.utf8Decode?.map Array.toList

/-- The decoder reads what the encoder writes, and nothing else. -/
theorem decodeUtf8_eq_some {bytes : List UInt8} {t : Text} :
    decodeUtf8 bytes = some t ↔ bytes = encodeUtf8 t := by
  constructor
  · intro h
    obtain ⟨chars, hchars, rfl⟩ := Option.map_eq_some_iff.mp h
    have hsome : bytes.toByteArray.utf8Decode?.isSome := by rw [hchars]; rfl
    have hencode := ByteArray.utf8Encode_get_utf8Decode? (h := hsome)
    simp only [hchars, Option.get_some] at hencode
    exact (List.toByteArray_inj.mp hencode).symm
  · rintro rfl
    show (List.utf8Encode t).utf8Decode?.map Array.toList = some t
    rw [List.utf8Decode?_utf8Encode]
    rfl

theorem encodeUtf8_append (t u : Text) : encodeUtf8 (t ++ u) = encodeUtf8 t ++ encodeUtf8 u :=
  List.flatMap_append

def isAscii (c : Char) : Bool := c.toNat < 128

theorem encodeUtf8_cons_ascii {c : Char} (h : isAscii c = true) (t : Text) :
    encodeUtf8 (c :: t) = UInt8.ofNat c.toNat :: encodeUtf8 t := by
  have hlt : c.toNat < 128 := by simpa [isAscii] using h
  have hsize : c.utf8Size = 1 := by
    rw [Char.utf8Size_eq_one_iff, UInt32.le_iff_toNat_le]
    show c.toNat ≤ 127
    omega
  have hbyte : String.utf8EncodeChar c = [UInt8.ofNat c.toNat] := by
    rw [String.utf8EncodeChar_eq_singleton hsize]
    rfl
  rw [encodeUtf8, List.flatMap_cons, hbyte]
  rfl

/-- `len(t.encode("utf-8"))` -/
def utf8Length (t : Text) : Nat := (encodeUtf8 t).length

@[simp] theorem utf8Length_nil : utf8Length [] = 0 := rfl

@[simp] theorem utf8Length_cons (c : Char) (t : Text) :
    utf8Length (c :: t) = c.utf8Size + utf8Length t := by
  rw [utf8Length, encodeUtf8, List.flatMap_cons, List.length_append, String.length_utf8EncodeChar]
  rfl

@[simp] theorem utf8Length_append (t u : Text) :
    utf8Length (t ++ u) = utf8Length t + utf8Length u := by
  rw [utf8Length, encodeUtf8_append, List.length_append]
  rfl

theorem utf8Length_ascii {t : Text} (h : ∀ c ∈ t, isAscii c = true) : utf8Length t = t.length := by
  induction t with
  | nil => rfl
  | cons c t ih =>
    have hrest := ih fun d hd => h d (List.mem_cons_of_mem _ hd)
    rw [utf8Length, encodeUtf8_cons_ascii (h c (List.mem_cons_self ..)), List.length_cons,
      List.length_cons]
    exact congrArg (· + 1) hrest

theorem utf8EncodeChar_ne_nil (c : Char) : String.utf8EncodeChar c ≠ [] := by
  intro h
  have hlen := String.length_utf8EncodeChar c
  have hpos := Char.utf8Size_pos c
  rw [h, List.length_nil] at hlen
  omega

/-- The bytes that follow the first byte of a character. -/
def tailLength (lead : UInt8) : Nat :=
  if 0xC2 ≤ lead ∧ lead ≤ 0xDF then 1
  else if 0xE0 ≤ lead ∧ lead ≤ 0xEF then 2
  else if 0xF0 ≤ lead ∧ lead ≤ 0xF4 then 3
  else 0

/-- The second byte of a character, which must not spell a shorter one, a surrogate, or more than
Unicode has. -/
def isSecond (lead b : UInt8) : Bool :=
  if lead = 0xE0 then 0xA0 ≤ b && b ≤ 0xBF
  else if lead = 0xED then 0x80 ≤ b && b ≤ 0x9F
  else if lead = 0xF0 then 0x90 ≤ b && b ≤ 0xBF
  else if lead = 0xF4 then 0x80 ≤ b && b ≤ 0x8F
  else 0x80 ≤ b && b ≤ 0xBF

/-- The bytes of a broken character, which one replacement character stands for, beyond the first. -/
def brokenTail (lead : UInt8) (bytes : List UInt8) : Nat :=
  match bytes.take (tailLength lead) with
  | [] => 0
  | b :: more =>
    if isSecond lead b then 1 + (more.takeWhile fun b => 0x80 ≤ b && b ≤ 0xBF).length else 0

/-- `bytes.decode("utf-8", "replace")`. -/
def decodeReplace : List UInt8 → Text
  | [] => []
  | b :: bytes =>
    match (b :: bytes).toByteArray.utf8DecodeChar? 0 with
    | some c => c :: decodeReplace (bytes.drop (c.utf8Size - 1))
    | none => '\uFFFD' :: decodeReplace (bytes.drop (brokenTail b bytes))
  termination_by bytes => bytes.length
  decreasing_by all_goals simp only [List.length_drop, List.length_cons]; omega

theorem decodeReplace_encodeUtf8 (t : Text) : decodeReplace (encodeUtf8 t) = t := by
  induction t with
  | nil => exact decodeReplace.eq_1
  | cons c t ih =>
    obtain ⟨b, bytes, hbytes⟩ := List.exists_cons_of_ne_nil (utf8EncodeChar_ne_nil c)
    have hread : (b :: (bytes ++ encodeUtf8 t)).toByteArray.utf8DecodeChar? 0 = some c := by
      have hencode := ByteArray.utf8DecodeChar?_utf8EncodeChar_append (b := (encodeUtf8 t).toByteArray)
        (c := c)
      rwa [hbytes, ← List.toByteArray_append] at hencode
    have hlen : c.utf8Size - 1 = bytes.length := by
      rw [← String.length_utf8EncodeChar, hbytes]
      rfl
    have hsplit : encodeUtf8 (c :: t) = b :: (bytes ++ encodeUtf8 t) := by
      show String.utf8EncodeChar c ++ encodeUtf8 t = _
      rw [hbytes]
      rfl
    rw [hsplit, decodeReplace, hread]
    show c :: decodeReplace ((bytes ++ encodeUtf8 t).drop (c.utf8Size - 1)) = c :: t
    rw [hlen, List.drop_left, ih]

theorem decodeReplace_ne_nil {bytes : List UInt8} (h : bytes ≠ []) : decodeReplace bytes ≠ [] := by
  obtain ⟨b, bytes, rfl⟩ := List.exists_cons_of_ne_nil h
  rw [decodeReplace]
  split
  · exact List.cons_ne_nil _ _
  · exact List.cons_ne_nil _ _

/-! ## Base64 -/

/-- The digits by value. -/
def base64Digits : Text := lit "ABCDEFGHIJKLMNOPQRSTUVWXYZabcdefghijklmnopqrstuvwxyz0123456789+/"

def sextet (c : Char) : Option Nat := base64Digits.idxOf? c

/-- What the decoder for the URL-safe alphabet does first. -/
def fromUrlSafe (c : Char) : Char := if c = '-' then '+' else if c = '_' then '/' else c

inductive Alphabet where
  | standard
  | urlSafe
  deriving DecidableEq, Repr

def Alphabet.digit (a : Alphabet) (v : Nat) : Char :=
  let c := base64Digits.getD v '='
  match a with
  | .standard => c
  | .urlSafe => if c = '+' then '-' else if c = '/' then '_' else c

/-- Three bytes are four digits; a last byte is two digits, two last bytes are three. -/
def sextets : List UInt8 → List Nat
  | a :: b :: c :: bytes =>
    a.toNat / 4 :: (a.toNat % 4 * 16 + b.toNat / 16) :: (b.toNat % 16 * 4 + c.toNat / 64) ::
      c.toNat % 64 :: sextets bytes
  | [a, b] => [a.toNat / 4, a.toNat % 4 * 16 + b.toNat / 16, b.toNat % 16 * 4]
  | [a] => [a.toNat / 4, a.toNat % 4 * 16]
  | [] => []

theorem sextets_group (a b c : UInt8) (bytes : List UInt8) : sextets (a :: b :: c :: bytes) =
    a.toNat / 4 :: (a.toNat % 4 * 16 + b.toNat / 16) :: (b.toNat % 16 * 4 + c.toNat / 64) ::
      c.toNat % 64 :: sextets bytes := rfl

theorem sextets_two (a b : UInt8) : sextets [a, b] =
    [a.toNat / 4, a.toNat % 4 * 16 + b.toNat / 16, b.toNat % 16 * 4] := rfl

theorem sextets_one (a : UInt8) : sextets [a] = [a.toNat / 4, a.toNat % 4 * 16] := rfl

/-- `t + "=" * (-len(t) % 4)`. -/
def padded (t : Text) : Text := t ++ List.replicate ((4 - t.length % 4) % 4) '='

/-- Base64 in one of the alphabets, with padding or without. -/
def base64 (a : Alphabet) (pad : Bool) (bytes : List UInt8) : Text :=
  let digits := (sextets bytes).map a.digit
  if pad then padded digits else digits

/-- `binascii.a2b_base64`: what is no digit is skipped.  `quad` digits of a group are read, `left` is
what they leave for the next byte, and the padding that completes a group ends the reading. -/
def a2bBase64 (quad left pads : Nat) : Text → Option (List UInt8)
  | [] => if quad = 0 then some [] else none
  | c :: t =>
    if c = '=' then
      if 2 ≤ quad then
        if 4 ≤ quad + (pads + 1) then some [] else a2bBase64 quad left (pads + 1) t
      else a2bBase64 quad left pads t
    else
      match sextet c, quad with
      | none, _ => a2bBase64 quad left pads t
      | some v, 0 => a2bBase64 1 v 0 t
      | some v, 1 => (a2bBase64 2 (v % 16) 0 t).map (UInt8.ofNat (left * 4 + v / 16) :: ·)
      | some v, 2 => (a2bBase64 3 (v % 4) 0 t).map (UInt8.ofNat (left * 16 + v / 4) :: ·)
      | some v, _ => (a2bBase64 0 0 0 t).map (UInt8.ofNat (left * 64 + v) :: ·)

/-- `base64.b64decode`, which raises for a character outside ASCII. -/
def b64decode (t : Text) : Option (List UInt8) :=
  if t.all isAscii then a2bBase64 0 0 0 t else none

/-- `base64.urlsafe_b64decode`. -/
def urlsafeB64decode (t : Text) : Option (List UInt8) := b64decode (t.map fromUrlSafe)

theorem a2bBase64_of_b64decode {t : Text} {bytes : List UInt8} (h : b64decode t = some bytes) :
    a2bBase64 0 0 0 t = some bytes := by
  unfold b64decode at h
  split at h
  · exact h
  · nomatch h

section Base64

variable {a b c : Char} {u v w left pads : Nat} {t : Text}

theorem sextet_digit : ∀ v < 64, sextet (Alphabet.standard.digit v) = some v := by decide

theorem fromUrlSafe_digit (a : Alphabet) :
    ∀ v < 64, fromUrlSafe (a.digit v) = Alphabet.standard.digit v := by
  cases a with
  | standard => decide +kernel
  | urlSafe => decide +kernel

/-- A digit is ASCII, and it is none of the marks that cut a link. -/
theorem digit_plain (a : Alphabet) : ∀ v < 64, isAscii (a.digit v) = true ∧
    isSpace (a.digit v) = false ∧ a.digit v ∉ lit "=#?@" := by
  cases a with
  | standard => decide +kernel
  | urlSafe => decide +kernel

theorem sextet_lt (h : sextet c = some v) : v < 64 := by
  obtain ⟨hlt, -⟩ := List.idxOf?_eq_some_iff.mp h
  have hlen : base64Digits.length = 64 := by decide
  omega

theorem ne_pad (h : sextet c = some v) : c ≠ '=' := by
  rintro rfl
  have hpad : sextet '=' = none := by decide
  rw [hpad] at h
  nomatch h

/-- One digit, by its place in the group. -/
theorem a2bBase64_digit (h : sextet a = some u) (quad : Nat) :
    a2bBase64 quad left pads (a :: t) =
      match quad with
      | 0 => a2bBase64 1 u 0 t
      | 1 => (a2bBase64 2 (u % 16) 0 t).map (UInt8.ofNat (left * 4 + u / 16) :: ·)
      | 2 => (a2bBase64 3 (u % 4) 0 t).map (UInt8.ofNat (left * 16 + u / 4) :: ·)
      | _ => (a2bBase64 0 0 0 t).map (UInt8.ofNat (left * 64 + u) :: ·) := by
  rw [a2bBase64.eq_def]
  simp only [if_neg (ne_pad h), h]
  rcases quad with _ | _ | _ | quad <;> rfl

theorem a2bBase64_first (h : sextet a = some u) :
    a2bBase64 0 left pads (a :: t) = a2bBase64 1 u 0 t := a2bBase64_digit h 0

theorem a2bBase64_second (h : sextet a = some u) : a2bBase64 1 left pads (a :: t) =
    (a2bBase64 2 (u % 16) 0 t).map (UInt8.ofNat (left * 4 + u / 16) :: ·) := a2bBase64_digit h 1

theorem a2bBase64_third (h : sextet a = some u) : a2bBase64 2 left pads (a :: t) =
    (a2bBase64 3 (u % 4) 0 t).map (UInt8.ofNat (left * 16 + u / 4) :: ·) := a2bBase64_digit h 2

theorem a2bBase64_fourth (h : sextet a = some u) : a2bBase64 3 left pads (a :: t) =
    (a2bBase64 0 0 0 t).map (UInt8.ofNat (left * 64 + u) :: ·) := a2bBase64_digit h 3

/-- **`a2bBase64_opening`** — whatever follows, three digits decide on two bytes. -/
theorem a2bBase64_opening {bytes : List UInt8} (ha : sextet a = some u) (hb : sextet b = some v)
    (hc : sextet c = some w) (h : a2bBase64 0 left pads (a :: b :: c :: t) = some bytes) :
    ∃ more, bytes = UInt8.ofNat (u * 4 + v / 16) :: UInt8.ofNat (v % 16 * 16 + w / 4) :: more := by
  rw [a2bBase64_first ha, a2bBase64_second hb, a2bBase64_third hc] at h
  obtain ⟨rest, hrest, rfl⟩ := Option.map_eq_some_iff.mp h
  obtain ⟨more, hmore, rfl⟩ := Option.map_eq_some_iff.mp hrest
  exact ⟨more, rfl⟩

/-- A group of four digits. -/
theorem a2bBase64_group {d : Char} {x : Nat} (ha : sextet a = some u) (hb : sextet b = some v)
    (hc : sextet c = some w) (hd : sextet d = some x) :
    a2bBase64 0 left pads (a :: b :: c :: d :: t) = (a2bBase64 0 0 0 t).map fun bytes =>
      UInt8.ofNat (u * 4 + v / 16) :: UInt8.ofNat (v % 16 * 16 + w / 4) ::
        UInt8.ofNat (w % 4 * 64 + x) :: bytes := by
  rw [a2bBase64_first ha, a2bBase64_second hb, a2bBase64_third hc, a2bBase64_fourth hd]
  simp only [Option.map_map]
  rfl

theorem padded_group (a b c d : Char) (digits : Text) :
    padded (a :: b :: c :: d :: digits) = a :: b :: c :: d :: padded digits := by
  have hlen : (a :: b :: c :: d :: digits).length % 4 = digits.length % 4 := by
    simp only [List.length_cons]
    omega
  rw [padded, hlen]
  rfl

theorem sextets_lt (bytes : List UInt8) : ∀ v ∈ sextets bytes, v < 64 := by
  induction bytes using sextets.induct with
  | case1 a b c bytes ih =>
    intro v hv
    have ha := a.toNat_lt
    simp only [sextets_group, List.mem_cons] at hv
    rcases hv with rfl | rfl | rfl | rfl | hv
    · omega
    · have := b.toNat_lt
      omega
    · have := c.toNat_lt
      omega
    · omega
    · exact ih v hv
  | case2 a b =>
    intro v hv
    have ha := a.toNat_lt
    have hb := b.toNat_lt
    simp only [sextets_two, List.mem_cons, List.not_mem_nil, or_false] at hv
    omega
  | case3 a =>
    intro v hv
    have ha := a.toNat_lt
    simp only [sextets_one, List.mem_cons, List.not_mem_nil, or_false] at hv
    omega
  | case4 => exact nofun

theorem ofNat_eq {n : Nat} {b : UInt8} (h : n = b.toNat) : UInt8.ofNat n = b := by
  rw [h]
  exact UInt8.ofNat_toNat

theorem ofNat_inj {m n : Nat} (hm : m < 256) (hn : n < 256) (h : UInt8.ofNat m = UInt8.ofNat n) :
    m = n := by
  have hnat := congrArg UInt8.toNat h
  rwa [UInt8.toNat_ofNat', UInt8.toNat_ofNat', Nat.mod_eq_of_lt hm, Nat.mod_eq_of_lt hn] at hnat

theorem a2bBase64_padded (bytes : List UInt8) :
    a2bBase64 0 0 0 (padded ((sextets bytes).map Alphabet.standard.digit)) = some bytes := by
  induction bytes using sextets.induct with
  | case1 a b c bytes ih =>
    have ha := a.toNat_lt
    have hb := b.toNat_lt
    have hc := c.toNat_lt
    simp only [sextets_group, List.map_cons]
    rw [padded_group, a2bBase64_group (sextet_digit _ (by omega)) (sextet_digit _ (by omega))
      (sextet_digit _ (by omega)) (sextet_digit _ (by omega)), ih, Option.map_some]
    congr 2
    · exact ofNat_eq (by omega)
    · congr 1
      · exact ofNat_eq (by omega)
      · congr 1
        exact ofNat_eq (by omega)
  | case2 a b =>
    have ha := a.toNat_lt
    have hb := b.toNat_lt
    simp only [sextets_two, List.map_cons, List.map_nil]
    show a2bBase64 0 0 0 [_, _, _, '='] = _
    rw [a2bBase64_first (sextet_digit _ (by omega)), a2bBase64_second (sextet_digit _ (by omega)),
      a2bBase64_third (sextet_digit _ (by omega))]
    show some [_, _] = _
    congr 2
    · exact ofNat_eq (by omega)
    · congr 1
      exact ofNat_eq (by omega)
  | case3 a =>
    have ha := a.toNat_lt
    simp only [sextets_one, List.map_cons, List.map_nil]
    show a2bBase64 0 0 0 [_, _, '=', '='] = _
    rw [a2bBase64_first (sextet_digit _ (by omega)), a2bBase64_second (sextet_digit _ (by omega))]
    show some [_] = _
    congr 2
    exact ofNat_eq (by omega)
  | case4 => rfl

theorem mem_padded {c : Char} {t : Text} (h : c ∈ padded t) : c ∈ t ∨ c = '=' := by
  rcases List.mem_append.mp h with h | h
  · exact .inl h
  · exact .inr (List.eq_of_mem_replicate h)

theorem mem_base64 {a : Alphabet} {pad : Bool} {bytes : List UInt8} {c : Char}
    (h : c ∈ base64 a pad bytes) : (∃ v < 64, c = a.digit v) ∨ c = '=' := by
  have hdigits : ∀ c ∈ (sextets bytes).map a.digit, ∃ v < 64, c = a.digit v := by
    intro c hc
    obtain ⟨v, hv, rfl⟩ := List.mem_map.mp hc
    exact ⟨v, sextets_lt bytes v hv, rfl⟩
  unfold base64 at h
  cases pad with
  | true => exact (mem_padded h).imp_left (hdigits c)
  | false => exact .inl (hdigits c h)

/-- Once padded, both spellings are one. -/
theorem padded_base64 (a : Alphabet) (pad : Bool) (bytes : List UInt8) :
    padded (base64 a pad bytes) = padded ((sextets bytes).map a.digit) := by
  cases pad with
  | false => rfl
  | true =>
    show padded (padded _) = _
    generalize (sextets bytes).map a.digit = digits
    have hlen : (padded digits).length % 4 = 0 := by
      rw [padded, List.length_append, List.length_replicate]
      omega
    rw [padded, hlen]
    exact List.append_nil _

/-- **`urlsafeB64decode_base64`** — the decoder for the URL-safe alphabet reads both alphabets. -/
theorem urlsafeB64decode_base64 (a : Alphabet) (pad : Bool) (bytes : List UInt8) :
    urlsafeB64decode (padded (base64 a pad bytes)) = some bytes := by
  have hdigits : ((sextets bytes).map a.digit).map fromUrlSafe =
      (sextets bytes).map Alphabet.standard.digit := by
    rw [List.map_map]
    apply List.map_congr_left
    intro v hv
    exact fromUrlSafe_digit a v (sextets_lt bytes v hv)
  have hmap : (padded ((sextets bytes).map a.digit)).map fromUrlSafe =
      padded ((sextets bytes).map Alphabet.standard.digit) := by
    rw [padded, padded, List.map_append, hdigits, List.map_replicate, List.length_map,
      List.length_map]
    rfl
  have hascii : (padded ((sextets bytes).map Alphabet.standard.digit)).all isAscii = true := by
    rw [List.all_eq_true]
    intro c hc
    rcases mem_padded hc with hc | rfl
    · obtain ⟨v, hv, rfl⟩ := List.mem_map.mp hc
      exact (digit_plain .standard v (sextets_lt bytes v hv)).1
    · rfl
  rw [urlsafeB64decode, padded_base64, hmap, b64decode, if_pos hascii]
  exact a2bBase64_padded bytes

end Base64

/-! ## Percent-encoding -/

def hexValue (c : Char) : Option Nat := (lit "0123456789abcdef").idxOf? c.toLower

/-- The byte of the escape `%ab`. -/
def escapedByte (a b : Char) : Option UInt8 := do
  let high ← hexValue a
  let low ← hexValue b
  some (UInt8.ofNat (high * 16 + low))

/-- `urllib.parse.unquote_to_bytes` on ASCII text. -/
def unquoteToBytes : Text → List UInt8
  | '%' :: a :: b :: t =>
    match escapedByte a b with
    | some x => x :: unquoteToBytes t
    | none => UInt8.ofNat '%'.toNat :: unquoteToBytes (a :: b :: t)
  | c :: t => UInt8.ofNat c.toNat :: unquoteToBytes t
  | [] => []

/-- The runs of ASCII text are decoded each by itself; `run` is what is read of the current one. -/
def unquoteRuns (run : Text) : Text → Text
  | [] => decodeReplace (unquoteToBytes run)
  | c :: t =>
    if isAscii c then unquoteRuns (run ++ [c]) t
    else decodeReplace (unquoteToBytes run) ++ c :: unquoteRuns [] t

theorem unquoteRuns_cons (run : Text) (c : Char) (t : Text) : unquoteRuns run (c :: t) =
    if isAscii c then unquoteRuns (run ++ [c]) t
    else decodeReplace (unquoteToBytes run) ++ c :: unquoteRuns [] t := rfl

/-- `urllib.parse.unquote`. -/
def unquote (t : Text) : Text := if '%' ∈ t then unquoteRuns [] t else t

/-- A sequence of escapes. -/
inductive Escapes : Text → List UInt8 → Prop where
  | nil : Escapes [] []
  | cons {a b : Char} {x : UInt8} {e : Text} {bytes : List UInt8} :
      escapedByte a b = some x → Escapes e bytes → Escapes ('%' :: a :: b :: e) (x :: bytes)

/-- `Quotes q t`: each character of `t` stands in `q` as it is, unless it is the percent sign, or
stands there as the escapes of its UTF-8 bytes. -/
inductive Quotes : Text → Text → Prop where
  | nil : Quotes [] []
  | raw {c : Char} {q t : Text} : c ≠ '%' → Quotes q t → Quotes (c :: q) (c :: t)
  | escaped {c : Char} {e q t : Text} :
      Escapes e (String.utf8EncodeChar c) → Quotes q t → Quotes (e ++ q) (c :: t)

/-- Letters, digits and four marks. -/
def isUnreserved (c : Char) : Bool := c.isAlphanum || c ∈ lit "_.-~"

def hexDigit (n : Nat) : Char := (lit "0123456789ABCDEF").getD n '0'

/-- `urllib.parse.quote(t, safe="")`. -/
def quote (t : Text) : Text :=
  t.flatMap fun c =>
    if isUnreserved c then [c]
    else (String.utf8EncodeChar c).flatMap fun b =>
      ['%', hexDigit (b.toNat / 16), hexDigit (b.toNat % 16)]

section Percent

variable {q t e : Text} {bytes : List UInt8}

theorem Quotes.raw_append {u : Text} (hu : '%' ∉ u) (h : Quotes q t) :
    Quotes (u ++ q) (u ++ t) := by
  induction u with
  | nil => exact h
  | cons c u ih =>
    have hc : c ≠ '%' := fun heq => hu (heq ▸ List.mem_cons_self ..)
    exact .raw hc (ih fun hmem => hu (List.mem_cons_of_mem _ hmem))

theorem unquoteToBytes_raw {c : Char} (hc : c ≠ '%') (t : Text) :
    unquoteToBytes (c :: t) = UInt8.ofNat c.toNat :: unquoteToBytes t := by
  rw [unquoteToBytes]
  intro a b u heq
  exact absurd heq hc

theorem unquoteToBytes_escapes (h : Escapes e bytes) (t : Text) :
    unquoteToBytes (e ++ t) = bytes ++ unquoteToBytes t := by
  induction h with
  | nil => rfl
  | cons hx he ih =>
    show unquoteToBytes ('%' :: _ :: _ :: (_ ++ t)) = _
    rw [unquoteToBytes, hx]
    exact congrArg (_ :: ·) ih

theorem isAscii_of_hexValue {c : Char} {n : Nat} (h : hexValue c = some n) : isAscii c = true := by
  have hmem : c.toLower ∈ lit "0123456789abcdef" := by
    rw [← List.isSome_idxOf?, ← hexValue, h]
    rfl
  have hascii : ∀ d ∈ lit "0123456789abcdef", d.toNat < 128 :=
    List.all_iff_forall_prop.mp (by decide)
  have hlower := hascii _ hmem
  rcases toLower_eq_self_or c with heq | ⟨-, hle⟩
  · rw [heq] at hlower
    exact decide_eq_true hlower
  · exact decide_eq_true (by omega)

theorem isAscii_of_escapes (h : Escapes e bytes) : ∀ c ∈ e, isAscii c = true := by
  induction h with
  | nil => exact nofun
  | cons hx he ih =>
    obtain ⟨high, hhigh, hx⟩ := Option.bind_eq_some_iff.mp hx
    obtain ⟨low, hlow, -⟩ := Option.bind_eq_some_iff.mp hx
    intro c hc
    rcases List.mem_cons.mp hc with rfl | hc
    · rfl
    rcases List.mem_cons.mp hc with rfl | hc
    · exact isAscii_of_hexValue hhigh
    rcases List.mem_cons.mp hc with rfl | hc
    · exact isAscii_of_hexValue hlow
    · exact ih c hc

theorem unquoteRuns_ascii {u : Text} (hu : ∀ c ∈ u, isAscii c = true) (run t : Text) :
    unquoteRuns run (u ++ t) = unquoteRuns (run ++ u) t := by
  induction u generalizing run with
  | nil => rw [List.nil_append, List.append_nil]
  | cons c u ih =>
    rw [List.cons_append, unquoteRuns_cons, if_pos (hu c (List.mem_cons_self ..)),
      ih (fun d hd => hu d (List.mem_cons_of_mem _ hd)), List.append_assoc]
    rfl

theorem decodeReplace_run {run p : Text}
    (hrun : ∀ s, unquoteToBytes (run ++ s) = encodeUtf8 p ++ unquoteToBytes s) :
    decodeReplace (unquoteToBytes run) = p := by
  have hall := hrun []
  rw [List.append_nil] at hall
  rw [hall]
  show decodeReplace (encodeUtf8 p ++ []) = p
  rw [List.append_nil, decodeReplace_encodeUtf8]

/-- `hrun` says that the run ends with a character: `p` is what it spells so far. -/
theorem unquoteRuns_of_quotes (h : Quotes q t) {run p : Text}
    (hrun : ∀ s, unquoteToBytes (run ++ s) = encodeUtf8 p ++ unquoteToBytes s) :
    unquoteRuns run q = p ++ t := by
  induction h generalizing run p with
  | nil =>
    show decodeReplace (unquoteToBytes run) = p ++ []
    rw [decodeReplace_run hrun, List.append_nil]
  | @raw c q t hc _ ih =>
    rw [unquoteRuns_cons]
    split
    · next hascii =>
      have hnext : ∀ s, unquoteToBytes ((run ++ [c]) ++ s) =
          encodeUtf8 (p ++ [c]) ++ unquoteToBytes s := by
        intro s
        rw [List.append_assoc, hrun, encodeUtf8_append, encodeUtf8_cons_ascii hascii]
        show encodeUtf8 p ++ unquoteToBytes (c :: s) = _
        rw [unquoteToBytes_raw hc, List.append_assoc]
        rfl
      rw [ih hnext, List.append_assoc]
      rfl
    · rw [decodeReplace_run hrun, @ih [] [] fun s => rfl]
      rfl
  | @escaped c e q t he _ ih =>
    have hnext : ∀ s, unquoteToBytes ((run ++ e) ++ s) =
        encodeUtf8 (p ++ [c]) ++ unquoteToBytes s := by
      intro s
      rw [List.append_assoc, hrun, unquoteToBytes_escapes he, encodeUtf8_append, List.append_assoc]
      congr 2
      exact (List.append_nil _).symm
    rw [unquoteRuns_ascii (isAscii_of_escapes he), ih hnext, List.append_assoc]
    rfl

theorem eq_of_quotes (h : Quotes q t) (hq : '%' ∉ q) : q = t := by
  induction h with
  | nil => rfl
  | raw _ _ ih => rw [ih fun hmem => hq (List.mem_cons_of_mem _ hmem)]
  | @escaped c e q t he _ _ =>
    exfalso
    obtain ⟨b, bytes, hbytes⟩ := List.exists_cons_of_ne_nil (utf8EncodeChar_ne_nil c)
    rw [hbytes] at he
    cases he with
    | cons _ _ => exact hq (List.mem_cons_self ..)

/-- **`unquote_of_quotes`** — whichever characters are escaped, the text comes back. -/
theorem unquote_of_quotes (h : Quotes q t) : unquote q = t := by
  unfold unquote
  split
  · exact @unquoteRuns_of_quotes q t h [] [] fun s => rfl
  · next hq => exact eq_of_quotes h hq

theorem hexValue_hexDigit : ∀ n < 16, hexValue (hexDigit n) = some n := by decide

theorem hexDigit_plain : ∀ n < 16, hexDigit n ∉ lit "#?@" := by decide

theorem escapedByte_hexDigit (b : UInt8) :
    escapedByte (hexDigit (b.toNat / 16)) (hexDigit (b.toNat % 16)) = some b := by
  have hb := b.toNat_lt
  rw [escapedByte, hexValue_hexDigit _ (by omega), hexValue_hexDigit _ (by omega)]
  exact congrArg some (ofNat_eq (by omega))

theorem escapes_flatMap (bytes : List UInt8) : Escapes (bytes.flatMap fun b =>
    ['%', hexDigit (b.toNat / 16), hexDigit (b.toNat % 16)]) bytes := by
  induction bytes with
  | nil => exact .nil
  | cons b bytes ih => exact .cons (escapedByte_hexDigit b) ih

/-- **`quotes_quote`** — the library's own way to escape a text is one of the ways. -/
theorem quotes_quote (t : Text) : Quotes (quote t) t := by
  induction t with
  | nil => exact .nil
  | cons c t ih =>
    rw [quote, List.flatMap_cons]
    split
    · next hc =>
      apply Quotes.raw _ ih
      rintro rfl
      have hpercent : isUnreserved '%' = false := by decide
      rw [hpercent] at hc
      nomatch hc
    · exact .escaped (escapes_flatMap _) ih

theorem quote_plain (t : Text) : ∀ c ∈ quote t, c ∉ lit "#?@" := by
  intro c hc
  obtain ⟨d, -, hd⟩ := List.mem_flatMap.mp hc
  split at hd
  · next hplain =>
    obtain rfl := List.mem_singleton.mp hd
    have hmarks : ∀ m ∈ lit "#?@", isUnreserved m = false :=
      List.all_iff_forall_prop.mp (by decide)
    intro hmem
    rw [hmarks c hmem] at hplain
    nomatch hplain
  · obtain ⟨b, -, hb⟩ := List.mem_flatMap.mp hd
    have hlt := b.toNat_lt
    simp only [List.mem_cons, List.not_mem_nil, or_false] at hb
    rcases hb with rfl | rfl | rfl
    · decide
    · exact hexDigit_plain _ (by omega)
    · exact hexDigit_plain _ (by omega)

theorem unquoteToBytes_ne_nil (h : t ≠ []) : unquoteToBytes t ≠ [] := by
  fun_cases unquoteToBytes t with
  | case1 a b u x hx => exact List.cons_ne_nil _ _
  | case2 a b u hx => exact List.cons_ne_nil _ _
  | case3 c u hc => exact List.cons_ne_nil _ _
  | case4 => exact absurd rfl h

theorem unquoteRuns_ne_nil {run : Text} (h : run ++ t ≠ []) : unquoteRuns run t ≠ [] := by
  induction t generalizing run with
  | nil =>
    rw [List.append_nil] at h
    exact decodeReplace_ne_nil (unquoteToBytes_ne_nil h)
  | cons c t ih =>
    rw [unquoteRuns_cons]
    split
    · apply ih
      simp
    · simp

theorem unquote_ne_nil (h : t ≠ []) : unquote t ≠ [] := by
  unfold unquote
  split
  · exact unquoteRuns_ne_nil h
  · exact h

end Percent

end ProxyGateway.Lang
