/-
# ProxyGateway.Exits.Socks — credentials of a SOCKS link, taken literally

`parse_socks` does not decode anything.  It cuts the link at the last `@`, what stands before it at the
first colon, and looks for the end of the server only behind the `@`.  So a password may contain every
character, those that cut a URL included, and comes back as it was written (`parseSocks_literal`).
-/
import ProxyGateway.Exits.Shadowsocks

namespace ProxyGateway.Exits

open ProxyGateway.Lang

/-! ## What is given -/

/-- `str.lower` on the characters of ASCII, which become one character each, whatever follows them. -/
structure LowersAscii (L : Library) : Prop where
  whole : ∀ t : Text, (∀ c ∈ t, c.toNat < 128) → L.lower t = t.map Char.toLower
  front : ∀ t u : Text, (∀ c ∈ t, c.toNat < 128) → t.map Char.toLower <+: L.lower (t ++ u)

/-- The schemes. -/
def socksSchemes : List Text := [lit "socks", lit "socks5", lit "socks5h"]

/-- `parse_socks` of `singbox-exit-config.py`, which ends in `(user or None), (password or None)`. -/
def Singbox.parseSocks (L : Library) (uri : Text) : Option (Value × Value × Value × Value) :=
  (Exits.parseSocks L uri).map fun (host, port, user, password) =>
    (host, port, user.or .null, password.or .null)

/-! ## The scheme -/

section Scheme

variable {L : Library} {scheme : Text}

/-- Only ASCII letters are changed, and into ASCII letters. -/
theorem toNat_lt_of_toLower {c : Char} (h : c.toLower.toNat < 128) : c.toNat < 128 := by
  unfold Char.toLower at h
  split at h
  · next hupper =>
    have hle : c.val.toNat ≤ 90 := UInt32.le_iff_toNat_le.mp hupper.2
    exact Nat.lt_of_le_of_lt hle (by decide)
  · exact h

theorem ascii_of_map_toLower {t u : Text} (h : t.map Char.toLower = u) (hu : ∀ c ∈ u, c.toNat < 128) :
    ∀ c ∈ t, c.toNat < 128 := fun _ hc =>
  toNat_lt_of_toLower (hu _ (h ▸ List.mem_map_of_mem hc))

/-- A start of the link that is as long as the scheme, and one that is longer. -/
theorem lower_take (hlower : LowersAscii L) {t u : Text} (h : t.map Char.toLower = u)
    (hu : ∀ c ∈ u, c.toNat < 128) (rest : Text) (n : Nat) (hn : u.length ≤ n) :
    u <+: L.lower ((t ++ rest).take n) ∧ (n = u.length → L.lower ((t ++ rest).take n) = u) := by
  have hlength : t.length = u.length := by rw [← h, List.length_map]
  have hascii := ascii_of_map_toLower h hu
  rw [List.take_append, List.take_of_length_le (hlength.trans_le hn)]
  constructor
  · exact h ▸ hlower.front t _ hascii
  · rintro rfl
    rw [hlength, Nat.sub_self, List.take_zero, List.append_nil, hlower.whole t hascii, h]

/-- **`dropSocksPrefix_scheme`** — the prefix goes, and nothing else. -/
theorem dropSocksPrefix_scheme (hlower : LowersAscii L)
    (hscheme : scheme.map Char.toLower ∈ socksSchemes) (rest : Text) :
    dropSocksPrefix L (scheme ++ lit "://" ++ rest) = rest := by
  have hmap : ∀ {word : Text}, scheme.map Char.toLower = word →
      (scheme ++ lit "://").map Char.toLower = word ++ lit "://" := by
    rintro word rfl
    rw [List.map_append]
    rfl
  have hdrop : ∀ {start : Text}, (scheme ++ lit "://").map Char.toLower = start →
      (scheme ++ lit "://" ++ rest).drop start.length = rest := by
    rintro start rfl
    exact List.drop_left' (List.length_map ..).symm
  -- a prefix that is asked for before the right one does not begin with it
  have hnot : ∀ {start full t : Text}, start <+: t → ¬ start <+: full → t ≠ full := by
    rintro start full t hstart hfull rfl
    exact hfull hstart
  simp only [socksSchemes, List.mem_cons, List.not_mem_nil, or_false] at hscheme
  rcases hscheme with h | h | h
  · have hstart := lower_take (u := lit "socks://") hlower (hmap h)
      (List.all_iff_forall_prop.mp (by decide)) rest
    rw [dropSocksPrefix, if_neg (hnot (hstart 10 (by decide)).1 (by decide)),
      if_neg (hnot (hstart 9 (by decide)).1 (by decide)), if_pos ((hstart 8 (by decide)).2 rfl)]
    exact hdrop (hmap h)
  · have hstart := lower_take (u := lit "socks5://") hlower (hmap h)
      (List.all_iff_forall_prop.mp (by decide)) rest
    rw [dropSocksPrefix, if_neg (hnot (hstart 10 (by decide)).1 (by decide)),
      if_pos ((hstart 9 (by decide)).2 rfl)]
    exact hdrop (hmap h)
  · have hstart := lower_take (u := lit "socks5h://") hlower (hmap h)
      (List.all_iff_forall_prop.mp (by decide)) rest
    rw [dropSocksPrefix, if_pos ((hstart 10 (by decide)).2 rfl)]
    exact hdrop (hmap h)

end Scheme

/-! ## Server and credentials -/

section Server

variable {L : Library} {scheme : Text} {host : LinkHost} {port : Nat}

/-- Nothing is cut off a server. -/
theorem strip_server :
    strip ((host.withPort port).takeWhile fun c => c != '/' && c != '?' && c != '#') =
      host.withPort port := by
  rw [takeWhile_withPort]
  exact strip_of_noSpace fun c hc => (mem_withPort hc).1

theorem parseSocks_credentials (hL : Documented L) (hlower : LowersAscii L)
    (hscheme : scheme.map Char.toLower ∈ socksSchemes) (hport : port ≤ 65535) {user : Text}
    (huser : user ≠ []) (hcolon : ':' ∉ user) (password : Text) (host : LinkHost) :
    parseSocks L (scheme ++ lit "://" ++ (user ++ ':' :: password ++ '@' :: host.withPort port)) =
      some (.str host.text, .int port, .str user, .str password) := by
  have hsplit : rsplit1 '@' (user ++ ':' :: password ++ '@' :: host.withPort port) =
      some (user ++ ':' :: password, host.withPort port) :=
    rsplit1_append (not_mem_withPort (by decide)) _
  have hempty : (user ++ ':' :: password).isEmpty = false :=
    List.isEmpty_eq_false_iff.mpr (List.append_ne_nil_of_left_ne_nil huser _)
  simp only [parseSocks, dropSocksPrefix_scheme hlower hscheme, hsplit, Option.getD_some, strip_server,
    parseHostport_withPort hL hport, Option.bind_eq_bind, Option.bind_some, hempty, split1_append hcolon]
  rfl

theorem parseSocks_server (hL : Documented L) (hlower : LowersAscii L)
    (hscheme : scheme.map Char.toLower ∈ socksSchemes) (hport : port ≤ 65535) (host : LinkHost) :
    parseSocks L (scheme ++ lit "://" ++ host.withPort port) =
      some (.str host.text, .int port, .null, .null) := by
  have hsplit : rsplit1 '@' (host.withPort port) = none :=
    if_neg (not_mem_withPort (by decide))
  simp only [parseSocks, dropSocksPrefix_scheme hlower hscheme, hsplit, Option.getD_none, strip_server,
    parseHostport_withPort hL hport, Option.bind_eq_bind, Option.bind_some]
  rfl

/-- **`parseSocks_literal`** — in both scripts, for every spelling of the scheme. -/
theorem parseSocks_literal (hL : Documented L) (hlower : LowersAscii L)
    (hscheme : scheme.map Char.toLower ∈ socksSchemes) (hport : port ≤ 65535) :
    (∀ user password : Text, user ≠ [] → ':' ∉ user → password ≠ [] →
      ∀ parse ∈ [parseSocks L, Singbox.parseSocks L],
        parse (scheme ++ lit "://" ++ (user ++ ':' :: password ++ '@' :: host.withPort port)) =
          some (.str host.text, .int port, .str user, .str password)) ∧
      ∀ parse ∈ [parseSocks L, Singbox.parseSocks L],
        parse (scheme ++ lit "://" ++ host.withPort port) =
          some (.str host.text, .int port, .null, .null) := by
  constructor
  · intro user password huser hcolon hpassword parse hparse
    have hplain := parseSocks_credentials hL hlower hscheme hport huser hcolon password host
    simp only [List.mem_cons, List.not_mem_nil, or_false] at hparse
    rcases hparse with rfl | rfl
    · exact hplain
    · have htruthy : ∀ t : Text, t ≠ [] → (Value.str t).or .null = .str t := fun t ht =>
        if_pos ((Value.truthy_str t).mpr ht)
      rw [Singbox.parseSocks, hplain, Option.map_some]
      simp only [htruthy user huser, htruthy password hpassword]
  · intro parse hparse
    have hplain := parseSocks_server hL hlower hscheme hport host
    simp only [List.mem_cons, List.not_mem_nil, or_false] at hparse
    rcases hparse with rfl | rfl
    · exact hplain
    · rw [Singbox.parseSocks, hplain]
      rfl

theorem codecLibrary_lowersAscii : LowersAscii codecLibrary where
  whole _ _ := rfl
  front _ u _ := ⟨u.map Char.toLower, List.map_append.symm⟩

/-- A password with every mark that cuts a link. -/
theorem parseSocks_literal_marks :
    (∀ parse ∈ [parseSocks codecLibrary, Singbox.parseSocks codecLibrary],
      parse (lit "SOCKS5h://me:p@ss: w/rd#1?%@5.6.7.8:1080") =
        some (.str (lit "5.6.7.8"), .int 1080, .str (lit "me"), .str (lit "p@ss: w/rd#1?%"))) ∧
      ∀ parse ∈ [parseSocks codecLibrary, Singbox.parseSocks codecLibrary],
        parse (lit "SOCKS5h://5.6.7.8:1080") =
          some (.str (lit "5.6.7.8"), .int 1080, .null, .null) := by
  have hliteral := @parseSocks_literal codecLibrary (lit "SOCKS5h") sampleHost 1080
    codecLibrary_documented codecLibrary_lowersAscii (by decide) (by omega)
  have hcredentials : lit "SOCKS5h://me:p@ss: w/rd#1?%@5.6.7.8:1080" =
      lit "SOCKS5h" ++ lit "://" ++ (lit "me" ++ ':' :: lit "p@ss: w/rd#1?%" ++
        '@' :: sampleHost.withPort 1080) := by decide
  have hserver : lit "SOCKS5h://5.6.7.8:1080" =
      lit "SOCKS5h" ++ lit "://" ++ sampleHost.withPort 1080 := by decide
  rw [hcredentials, hserver]
  exact ⟨hliteral.1 _ _ (by decide) (by decide) (by decide), hliteral.2⟩

end Server

end ProxyGateway.Exits
