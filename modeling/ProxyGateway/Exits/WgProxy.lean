/-
# ProxyGateway.Exits.WgProxy — a WireGuard configuration as a proxy of the smart exit

`wg_to_proxy` reads a configuration of `wg-quick` by hand.  It cuts a line at the first `#`, remembers
the section, cuts an assignment at the first `=`, and keeps two dictionaries with keys in lower case.
Spacing, case, comments and the order of the lines are all taken care of, and so are the `=` signs at
the end of a key in base64.

Two things are not.  The endpoint is cut at its last colon and the brackets of an IPv6 address stay on
it, where every other proxy of the same configuration has the bare address.  And a second `Address`
line replaces the first, where `wg-quick` adds to it.  `wgToProxy_carries_iff` says that nothing else
goes wrong.
-/
import ProxyGateway.Exits.Socks
import ProxyGateway.Lang.Lines

namespace ProxyGateway.Exits.WgProxy

open ProxyGateway.Lang

/-! ## The two readers -/

/-- The dictionaries `iface` and `peer`, the newest entry first, and the section. -/
structure Reading where
  iface : List (Text × Text)
  peer : List (Text × Text)
  inside : Option Text

section Readers

variable (L : Library)

/-- One turn of the loop; the two scripts differ in what they take for the header of a section. -/
def readLine (header? : Text → Option Text) (st : Reading) (raw : Text) : Reading :=
  let line := strip (before '#' raw)
  if line = [] then st
  else
    match header? line with
    | some name => { st with inside := some (L.lower name) }
    | none =>
      match split1 '=' line with
      | none => st
      | some (k, v) =>
        let entry := (L.lower (strip k), strip v)
        if st.inside = some (lit "interface") then { st with iface := entry :: st.iface }
        else { st with peer := entry :: st.peer }

/-- The loop over the file. -/
def readConf (header? : Text → Option Text) (text : Text) : Reading :=
  (pyLines text).foldl (readLine L header?) ⟨[], [], none⟩

/-- `d.get(k, default)` -/
def getOr (d : List (Text × Text)) (k default : Text) : Text := (d.lookup k).getD default

/-- `host, _, port = endpoint.rpartition(":")` -/
def rpartition (endpoint : Text) : Text × Text := (rsplit1 ':' endpoint).getD ([], endpoint)

/-- `int(port) if port.isdigit() else 51820` -/
def portOr (port : Text) : Option Int :=
  if L.isdigit port then L.int (.str port) else some 51820

/-- `if iface.get("mtu", "").isdigit()` -/
def mtuOf (mtu : Text) : Option (Option Int) :=
  if L.isdigit mtu then (L.int (.str mtu)).map some else some none

/-- What the two generators write alike. -/
structure Common where
  name : Text
  server : Text
  port : Int
  privateKey : Text
  publicKey : Text
  presharedKey : Option Text
  mtu : Option Int
  deriving DecidableEq

def common (name : Text) (st : Reading) : Option Common := do
  let (host, port) := rpartition (getOr st.peer (lit "endpoint") [])
  let port ← portOr L port
  let mtu ← mtuOf L (getOr st.iface (lit "mtu") [])
  let psk := getOr st.peer (lit "presharedkey") []
  some {
    name := name
    server := host
    port := port
    privateKey := getOr st.iface (lit "privatekey") []
    publicKey := getOr st.peer (lit "publickey") []
    presharedKey := if psk = [] then none else some psk
    mtu := mtu }

/-- `line.startswith("[") and line.endswith("]")`, and then `line[1:-1]`. -/
def Mihomo.header? (line : Text) : Option Text :=
  if line.head? = some '[' ∧ line.getLast? = some ']' then some (line.drop 1).dropLast else none

/-- The proxy that `wg_to_proxy` returns. -/
structure Proxy extends Common where
  ip : Text
  deriving DecidableEq

/-- **`wg_to_proxy`** on the text of a configuration; none where `int` raises. -/
def wgToProxy (name text : Text) : Option Proxy :=
  let st := readConf L Mihomo.header? text
  let ip := strip (before ',' (getOr st.iface (lit "address") (lit "172.19.0.2/32")))
  (common L name st).map fun c => { c with ip := ip }

/-- `line.startswith("[")`, and then `line.strip("[]")`. -/
def Singbox.header? (line : Text) : Option Text :=
  let bracket : Char → Bool := fun c => c == '[' || c == ']'
  if line.head? = some '[' then some ((line.dropWhile bracket).rdropWhile bracket) else none

/-- The outbound that `wg_to_outbound` returns. -/
structure Outbound extends Common where
  localAddress : List Text
  deriving DecidableEq

/-- The addresses of a list, without the empty pieces. -/
def addressList (v : Text) : List Text := ((v.splitOn ',').map strip).filter (· ≠ [])

/-- **`wg_to_outbound`** -/
def wgToOutbound (name text : Text) : Option Outbound :=
  let st := readConf L Singbox.header? text
  (common L name st).map fun c =>
    { c with localAddress := addressList (getOr st.iface (lit "address") []) }

end Readers

/-! ## The configuration -/

inductive Section where
  | interface
  | peer
  deriving DecidableEq, Repr

/-- The name of a section, in lower case. -/
def Section.word : Section → Text
  | .interface => lit "interface"
  | .peer => lit "peer"

/-- What a line of a configuration says; `key` is in lower case. -/
inductive Line where
  | blank
  | header (s : Section)
  | setting (key value : Text)
  deriving DecidableEq, Repr

/-- Spaces. -/
def Gap (t : Text) : Prop := ∀ c ∈ t, isSpace c = true

/-- Spaces, and perhaps a comment. -/
def Tail (t : Text) : Prop := Gap (before '#' t)

/-- **`Written l t`** — the ways to write a line: any spaces around the words, any case, any comment. -/
inductive Written : Line → Text → Prop where
  | blank {t : Text} (ht : Tail t) : Written .blank t
  | header {s : Section} {a name t : Text} (ha : Gap a) (hname : name.map Char.toLower = s.word)
      (ht : Tail t) : Written (.header s) (a ++ '[' :: (name ++ ']' :: t))
  | setting {a key b c t k v : Text} (ha : Gap a) (hkey : key.map Char.toLower = k) (hk : k ≠ [])
      (hletters : ∀ c ∈ k, c ∈ lit "abcdefghijklmnopqrstuvwxyz") (hb : Gap b) (hc : Gap c)
      (hv : strip v = v) (hplain : '#' ∉ v) (ht : Tail t) :
      Written (.setting k v) (a ++ (key ++ (b ++ '=' :: (c ++ (v ++ t)))))

def Line.section? : Line → Option Section
  | .header s => some s
  | _ => none

/-- The assignments of a section, in order, from a place in `cur` on. -/
def settingsFrom (s : Section) : Option Section → List Line → List (Text × Text)
  | _, [] => []
  | cur, .blank :: ls => settingsFrom s cur ls
  | _, .header s' :: ls => settingsFrom s (some s') ls
  | cur, .setting k v :: ls =>
    if cur = some s then (k, v) :: settingsFrom s cur ls else settingsFrom s cur ls

def settings (s : Section) (lines : List Line) : List (Text × Text) := settingsFrom s none lines

/-- The value that counts: the last assignment wins. -/
def effective (s : Section) (k : Text) (lines : List Line) : Option Text :=
  (settings s lines).reverse.lookup k

/-- The addresses of the tunnel.  `Address` may be given several times, and each line adds to them. -/
def addresses (lines : List Line) : List Text :=
  ((settings .interface lines).filter (·.1 = lit "address")).flatMap fun kv => addressList kv.2

/-- **`Config text lines`** — `text` writes `lines`, which are a configuration with one Interface and
one Peer section. -/
structure Config (text : Text) (lines : List Line) : Prop where
  written : List.Forall₂ Written lines (pyLines text)
  sections : (lines.filterMap Line.section?).Perm [.interface, .peer]
  headed : ∀ l ∈ lines.takeWhile (·.section?.isNone), l = .blank
  endpoint : ∀ v, effective .peer (lit "endpoint") lines = some v →
    ∃ (host : LinkHost) (port : Nat), port ≤ 65535 ∧ v = host.withPort port
  mtu : ∀ v, effective .interface (lit "mtu") lines = some v → ∃ n < 2 ^ 31, v = decimal n

/-- **`CarriesKeys lines c`** — the keys and the MTU are those of the configuration. -/
structure CarriesKeys (lines : List Line) (c : Common) : Prop where
  privateKey : ∀ v ∈ effective .interface (lit "privatekey") lines, c.privateKey = v
  publicKey : ∀ v ∈ effective .peer (lit "publickey") lines, c.publicKey = v
  presharedKey : c.presharedKey = (effective .peer (lit "presharedkey") lines).filter (· ≠ [])
  mtu : ∀ n : Nat, effective .interface (lit "mtu") lines = some (decimal n) → c.mtu = some (n : Int)
  noMtu : effective .interface (lit "mtu") lines = none → c.mtu = none

/-- **`Carries lines p`** — the proxy has what the configuration says: the keys, the first address, and
the endpoint as a bare host and a port. -/
structure Carries (lines : List Line) (p : Proxy) : Prop extends CarriesKeys lines p.toCommon where
  ip : ∀ a ∈ (addresses lines).head?, p.ip = a
  endpoint : ∀ (host : LinkHost) (port : Nat),
    effective .peer (lit "endpoint") lines = some (host.withPort port) →
      p.server = host.text ∧ p.port = port

/-- **`Plain lines`** — the endpoint has no brackets, and the last `Address` line begins with the first
address of the file. -/
structure Plain (lines : List Line) : Prop where
  unbracketed : ∀ (host : LinkHost) (port : Nat),
    effective .peer (lit "endpoint") lines = some (host.withPort port) → host.bracketed = false
  lastAddress : ∀ v ∈ effective .interface (lit "address") lines, ∀ a ∈ (addresses lines).head?,
    strip (before ',' v) = a

/-! ## One line -/

/-- What the loop does with a line, by what the line says. -/
def Reading.take (st : Reading) : Line → Reading
  | .blank => st
  | .header s => { st with inside := some s.word }
  | .setting k v =>
    if st.inside = some (lit "interface") then { st with iface := (k, v) :: st.iface }
    else { st with peer := (k, v) :: st.peer }

/-- What both scripts know of a header. -/
structure ReadsHeaders (header? : Text → Option Text) : Prop where
  name : ∀ t : Text, (∀ c ∈ t, c ≠ '[' ∧ c ≠ ']') → header? ('[' :: (t ++ [']'])) = some t
  other : ∀ t : Text, t.head? ≠ some '[' → header? t = none

theorem mihomo_readsHeaders : ReadsHeaders Mihomo.header? where
  name t _ := by
    have hlast : ('[' :: (t ++ [']'])).getLast? = some ']' := by
      rw [← List.cons_append, List.getLast?_concat]
    rw [Mihomo.header?, if_pos ⟨rfl, hlast⟩]
    simp
  other t h := if_neg fun hb => h hb.1

theorem singbox_readsHeaders : ReadsHeaders Singbox.header? where
  name t ht := by
    have hbracket : ∀ c ∈ t, (c == '[' || c == ']') = false := fun c hc => by
      simpa using ht c hc
    have hright : (t ++ [']']).rdropWhile (fun c => c == '[' || c == ']') = t := by
      rw [List.rdropWhile_concat_pos _ _ _ (by decide), List.rdropWhile_eq_self_iff]
      intro hne
      rw [hbracket _ (List.getLast_mem hne)]
      decide
    rw [Singbox.header?, if_pos List.head?_cons]
    refine congrArg some ?_
    rw [List.dropWhile_cons_of_pos (by decide)]
    cases t with
    | nil => rfl
    | cons c t =>
      rw [List.cons_append, List.dropWhile_cons_of_neg (by simp [hbracket c (.head _)])]
      exact hright
  other t h := if_neg h

section Lines

variable {L : Library} {header? : Text → Option Text}

/-- A character of a word: no space, and nothing of the syntax around it. -/
structure WordChar (c : Char) : Prop where
  ascii : c.toNat < 128
  noSpace : isSpace c = false
  ne_hash : c ≠ '#'
  ne_open : c ≠ '['
  ne_close : c ≠ ']'
  ne_equals : c ≠ '='

/-- The words of a configuration are made of letters, in either case. -/
theorem letter_of_toLower {c : Char} (h : c.toLower ∈ lit "abcdefghijklmnopqrstuvwxyz") :
    WordChar c := by
  have hrange : ∀ d ∈ lit "abcdefghijklmnopqrstuvwxyz", 97 ≤ d.toNat ∧ d.toNat ≤ 122 :=
    List.all_iff_forall_prop.mp (by decide)
  have hletter : 65 ≤ c.toNat ∧ c.toNat ≤ 90 ∨ 97 ≤ c.toNat ∧ c.toNat ≤ 122 := by
    rcases toLower_eq_self_or c with heq | hupper
    · exact .inr (hrange c (heq ▸ h))
    · exact .inl hupper
  have hne : ∀ d : Char, d.toNat < 65 ∨ 90 < d.toNat ∧ d.toNat < 97 → c ≠ d := by
    rintro d hd rfl
    omega
  refine ⟨by omega, ?_, hne _ (by decide), hne _ (by decide), hne _ (by decide), hne _ (by decide)⟩
  simp only [isSpace, Bool.or_eq_false_iff, Bool.and_eq_false_iff, decide_eq_false_iff_not,
    beq_eq_false_iff_ne]
  omega

theorem word_letters {w k : Text} (h : w.map Char.toLower = k)
    (hk : ∀ c ∈ k, c ∈ lit "abcdefghijklmnopqrstuvwxyz") : ∀ c ∈ w, WordChar c := fun _ hc =>
  letter_of_toLower (hk _ (h ▸ List.mem_map_of_mem hc))

theorem section_letters (s : Section) : ∀ c ∈ s.word, c ∈ lit "abcdefghijklmnopqrstuvwxyz" := by
  cases s <;> exact List.all_iff_forall_prop.mp (by decide)

theorem Gap.not_mem {a : Text} (h : Gap a) {c : Char} (hc : isSpace c = false) : c ∉ a :=
  fun hmem => Bool.noConfusion ((h c hmem).symm.trans hc)

/-- Stripping takes the spaces off, and no more. -/
theorem strip_gaps {a b : Text} (ha : Gap a) (hb : Gap b) (w : Text) :
    strip (a ++ (w ++ b)) = strip w := trimBy_append ha hb w

theorem strip_gap_right {b : Text} (hb : Gap b) (w : Text) : strip (w ++ b) = strip w :=
  strip_gaps (List.forall_mem_nil _) hb w

theorem strip_rdropWhile (t : Text) : strip (t.rdropWhile isSpace) = strip t := by
  have hgap : Gap (t.rtakeWhile isSpace) := fun c hc => List.mem_rtakeWhile_imp hc
  rw [← strip_gap_right hgap, List.rdropWhile_append_rtakeWhile]

/-- What is left of the header of a section without its comment and the spaces around it. -/
theorem strip_header {a name t : Text} (ha : Gap a) (ht : Tail t)
    (hname : ∀ c ∈ name, isSpace c = false ∧ c ≠ '#') :
    strip (before '#' (a ++ '[' :: (name ++ ']' :: t))) = '[' :: (name ++ [']']) := by
  have hcut : before '#' (a ++ '[' :: (name ++ ']' :: t)) =
      a ++ (('[' :: (name ++ [']'])) ++ before '#' t) := by
    have hsplit : a ++ '[' :: (name ++ ']' :: t) = (a ++ '[' :: (name ++ [']'])) ++ t := by simp
    rw [hsplit, before_append_of_not_mem]
    · simp
    · simp only [List.mem_append, List.mem_cons, List.not_mem_nil, or_false, not_or]
      exact ⟨ha.not_mem rfl, by decide, fun hmem => (hname _ hmem).2 rfl, by decide⟩
  rw [hcut, strip_gaps ha ht]
  apply strip_of_noSpace
  intro c hc
  rcases List.mem_cons.mp hc with rfl | hc
  · rfl
  rcases List.mem_append.mp hc with hc | hc
  · exact (hname c hc).1
  · obtain rfl := List.mem_singleton.mp hc
    rfl

/-- What is left of an assignment. -/
theorem strip_setting {a key b c v t : Text} (ha : Gap a) (hb : Gap b) (hc : Gap c) (hne : key ≠ [])
    (hkey : ∀ d ∈ key, isSpace d = false ∧ d ≠ '#') (hplain : '#' ∉ v) :
    strip (before '#' (a ++ (key ++ (b ++ '=' :: (c ++ (v ++ t)))))) =
      (key ++ b) ++ '=' :: (c ++ (v ++ before '#' t)).rdropWhile isSpace := by
  have hcut : before '#' (a ++ (key ++ (b ++ '=' :: (c ++ (v ++ t))))) =
      (a ++ (key ++ b)) ++ '=' :: (c ++ (v ++ before '#' t)) := by
    have hsplit : a ++ (key ++ (b ++ '=' :: (c ++ (v ++ t)))) =
        ((a ++ (key ++ b)) ++ '=' :: (c ++ v)) ++ t := by simp
    rw [hsplit, before_append_of_not_mem]
    · simp
    · simp only [List.mem_append, List.mem_cons, not_or]
      exact ⟨⟨ha.not_mem rfl, fun hmem => (hkey _ hmem).2 rfl, hb.not_mem rfl⟩, by decide,
        hc.not_mem rfl, hplain⟩
  have hleft : (a ++ (key ++ b)).dropWhile isSpace = key ++ b := by
    rw [List.dropWhile_append_of_pos ha]
    obtain ⟨d, key, rfl⟩ := List.exists_cons_of_ne_nil hne
    exact List.dropWhile_cons_of_neg (by simp [(hkey d (.head _)).1])
  rw [hcut, strip_append_cons rfl, hleft]

/-- **`readLine_written`** — a line is read as what it says, whatever its spacing, case and comment. -/
theorem readLine_written (hL : LowersAscii L) (hheader : ReadsHeaders header?) {l : Line} {raw : Text}
    (h : Written l raw) (st : Reading) : readLine L header? st raw = st.take l := by
  cases h with
  | blank ht =>
    have hnil : strip (before '#' raw) = [] := strip_gap_right ht []
    rw [readLine, hnil, if_pos rfl]
    rfl
  | @header s a name t ha hname ht =>
    have hletters := word_letters hname (section_letters s)
    have hline := strip_header ha ht fun c hc => ⟨(hletters c hc).noSpace, (hletters c hc).ne_hash⟩
    have hname? := hheader.name name fun c hc => ⟨(hletters c hc).ne_open, (hletters c hc).ne_close⟩
    have hlower := hL.whole name fun c hc => (hletters c hc).ascii
    rw [readLine, hline, if_neg (List.cons_ne_nil _ _)]
    simp only [hname?, hlower, hname]
    rfl
  | @setting a key b c t k v ha hkey hk hall hb hc hv hplain ht =>
    have hletters := word_letters hkey hall
    have hne : key ≠ [] := by
      rintro rfl
      exact hk hkey.symm
    have hline : strip (before '#' (a ++ (key ++ (b ++ '=' :: (c ++ (v ++ t)))))) =
        (key ++ b) ++ '=' :: (c ++ (v ++ before '#' t)).rdropWhile isSpace :=
      strip_setting ha hb hc hne (fun d hd => ⟨(hletters d hd).noSpace, (hletters d hd).ne_hash⟩) hplain
    have hequals : '=' ∉ key ++ b := by
      simp only [List.mem_append, not_or]
      exact ⟨fun hmem => (hletters _ hmem).ne_equals rfl, hb.not_mem rfl⟩
    have hkey' : strip (key ++ b) = key := by
      rw [strip_gap_right hb]
      exact strip_of_noSpace fun d hd => (hletters d hd).noSpace
    have hvalue : strip ((c ++ (v ++ before '#' t)).rdropWhile isSpace) = v := by
      rw [strip_rdropWhile, strip_gaps hc ht, hv]
    have hhead : ((key ++ b) ++ '=' :: (c ++ (v ++ before '#' t)).rdropWhile isSpace).head? ≠
        some '[' := by
      obtain ⟨d, key, rfl⟩ := List.exists_cons_of_ne_nil hne
      simpa using (hletters d (.head _)).ne_open
    have hlower := hL.whole key fun d hd => (hletters d hd).ascii
    rw [readLine, hline, if_neg (by simp [hne])]
    simp only [hheader.other _ hhead, split1_append hequals, hkey', hvalue, hlower, hkey]
    rfl

/-! ## The whole file -/

theorem readConf_written (hL : LowersAscii L) (hheader : ReadsHeaders header?) {lines : List Line}
    {raws : List Text} (h : List.Forall₂ Written lines raws) (st : Reading) :
    raws.foldl (readLine L header?) st = lines.foldl Reading.take st := by
  induction h generalizing st with
  | nil => rfl
  | cons hline _ ih => rw [List.foldl_cons, List.foldl_cons, readLine_written hL hheader hline, ih]

/-- The dictionaries after the lines `ls`, from a place in `cur` on: the assignments of each section
stand in front, the last one first. -/
theorem foldl_take {ls : List Line} {cur : Option Section} {st : Reading}
    (hcur : st.inside = cur.map Section.word)
    (hheaded : cur = none → ∀ l ∈ ls.takeWhile (·.section?.isNone), l = .blank) :
    (ls.foldl Reading.take st).iface = (settingsFrom .interface cur ls).reverse ++ st.iface ∧
      (ls.foldl Reading.take st).peer = (settingsFrom .peer cur ls).reverse ++ st.peer := by
  induction ls generalizing cur st with
  | nil => exact ⟨rfl, rfl⟩
  | cons l ls ih =>
    rw [List.foldl_cons]
    cases l with
    | blank =>
      refine ih hcur fun hnone l hl => hheaded hnone l ?_
      rw [List.takeWhile_cons_of_pos (by rfl)]
      exact List.mem_cons_of_mem _ hl
    | header s => exact @ih (some s) _ rfl nofun
    | setting k v =>
      cases cur with
      | none =>
        -- nothing is assigned before the first section
        have hblank := hheaded rfl (.setting k v) (by
          rw [List.takeWhile_cons_of_pos (by rfl)]
          exact List.mem_cons_self ..)
        nomatch hblank
      | some s =>
        cases s with
        | interface =>
          have hin : st.inside = some (lit "interface") := hcur
          obtain ⟨hiface, hpeer⟩ :=
            @ih (some .interface) { st with iface := (k, v) :: st.iface } hcur nofun
          rw [Reading.take, if_pos hin, hiface, hpeer]
          simp [settingsFrom]
        | peer =>
          have hout : st.inside ≠ some (lit "interface") := by
            rw [hcur]
            decide
          obtain ⟨hiface, hpeer⟩ :=
            @ih (some .peer) { st with peer := (k, v) :: st.peer } hcur nofun
          rw [Reading.take, if_neg hout, hiface, hpeer]
          simp [settingsFrom]

/-- **`readConf_lookup`** — a key of a dictionary has the value that counts. -/
theorem readConf_lookup (hL : LowersAscii L) (hheader : ReadsHeaders header?) {text : Text}
    {lines : List Line} (h : Config text lines) (k : Text) :
    (readConf L header? text).iface.lookup k = effective .interface k lines ∧
      (readConf L header? text).peer.lookup k = effective .peer k lines := by
  obtain ⟨hiface, hpeer⟩ := @foldl_take lines none ⟨[], [], none⟩ rfl fun _ => h.headed
  rw [readConf, readConf_written hL hheader h.written, hiface, hpeer, List.append_nil,
    List.append_nil]
  exact ⟨rfl, rfl⟩

/-- Numbers in ASCII digits, as Python documents `str.isdigit` and `int`. -/
structure ReadsNumbers (L : Library) : Prop where
  isdigit : ∀ t : Text, (∀ c ∈ t, c.toNat < 128) → L.isdigit t = (!t.isEmpty && t.all Char.isDigit)
  int : ∀ n : Nat, n < 2 ^ 31 → L.int (.str (decimal n)) = some (n : Int)

theorem isdigit_decimal (hN : ReadsNumbers L) (n : Nat) : L.isdigit (decimal n) = true := by
  have hne : (decimal n).isEmpty = false := List.isEmpty_eq_false_iff.mpr Nat.toDigits_ne_nil
  rw [hN.isdigit, hne, List.all_eq_true.mpr (decimal_digits n)]
  · rfl
  · intro c hc
    have := isDigit_range (decimal_digits n c hc)
    omega

theorem isdigit_nil (hN : ReadsNumbers L) : L.isdigit [] = false := by
  rw [hN.isdigit [] (List.forall_mem_nil _)]
  rfl

theorem mtuOf_config (hN : ReadsNumbers L) {mtu : Option Text}
    (h : ∀ v, mtu = some v → ∃ n < 2 ^ 31, v = decimal n) :
    ∃ r, mtuOf L (mtu.getD []) = some r ∧ (∀ n : Nat, mtu = some (decimal n) → r = some (n : Int)) ∧
      (mtu = none → r = none) := by
  cases mtu with
  | none => exact ⟨none, by rw [mtuOf, Option.getD_none, isdigit_nil hN]; rfl, nofun, fun _ => rfl⟩
  | some v =>
    obtain ⟨n, hn, rfl⟩ := h v rfl
    refine ⟨some (n : Int), ?_, fun m hm => ?_, nofun⟩
    · rw [Option.getD_some, mtuOf, isdigit_decimal hN, if_pos rfl, hN.int n hn]
      rfl
    · rw [decimal_injective (Option.some.inj hm)]

theorem rpartition_withPort (host : LinkHost) (port : Nat) :
    rpartition (host.withPort port) = (host.written, decimal port) := by
  have hsplit : rsplit1 ':' (host.withPort port) = some (host.written, decimal port) :=
    rsplit1_append (colon_not_mem_decimal port) _
  rw [rpartition, hsplit]
  rfl

theorem withPort_injective {host host' : LinkHost} {port port' : Nat}
    (h : host.withPort port = host'.withPort port') : host.written = host'.written ∧ port = port' := by
  have hparts := congrArg rpartition h
  rw [rpartition_withPort, rpartition_withPort] at hparts
  obtain ⟨hw, hp⟩ := Prod.mk.inj hparts
  exact ⟨hw, decimal_injective hp⟩

theorem portOr_config (hN : ReadsNumbers L) {endpoint : Option Text}
    (h : ∀ v, endpoint = some v → ∃ (host : LinkHost) (port : Nat), port ≤ 65535 ∧
      v = host.withPort port) :
    ∃ p, portOr L (rpartition (endpoint.getD [])).2 = some p ∧
      ∀ (host : LinkHost) (port : Nat), endpoint = some (host.withPort port) →
        (rpartition (endpoint.getD [])).1 = host.written ∧ p = port := by
  cases endpoint with
  | none =>
    have hnil : rpartition [] = ([], []) := rfl
    refine ⟨51820, ?_, nofun⟩
    rw [Option.getD_none, hnil, portOr, isdigit_nil hN]
    rfl
  | some v =>
    obtain ⟨host, port, hport, rfl⟩ := h v rfl
    refine ⟨port, ?_, fun host' port' heq => ?_⟩
    · rw [Option.getD_some, rpartition_withPort, portOr, isdigit_decimal hN, if_pos rfl,
        hN.int port (by omega)]
    · obtain ⟨hw, rfl⟩ := withPort_injective (Option.some.inj heq)
      rw [Option.getD_some, rpartition_withPort]
      exact ⟨hw, rfl⟩

/-- **`common_config`** — what the two generators write alike: everything is as in the file, the host
as it is written there. -/
theorem common_config (hL : LowersAscii L) (hN : ReadsNumbers L) (hheader : ReadsHeaders header?)
    {text : Text} {lines : List Line} (h : Config text lines) (name : Text) :
    ∃ c, common L name (readConf L header? text) = some c ∧ CarriesKeys lines c ∧
      ∀ (host : LinkHost) (port : Nat),
        effective .peer (lit "endpoint") lines = some (host.withPort port) →
          c.server = host.written ∧ c.port = port := by
  have hlookup := readConf_lookup hL hheader h
  obtain ⟨port, hport, hendpoint⟩ := portOr_config hN h.endpoint
  obtain ⟨mtu, hmtu, hsome, hnone⟩ := mtuOf_config hN h.mtu
  simp only [common, getOr, (hlookup _).1, (hlookup _).2, hport, hmtu, Option.bind_eq_bind,
    Option.bind_some]
  refine ⟨_, rfl, ⟨?_, ?_, ?_, hsome, hnone⟩, hendpoint⟩
  · rintro v hv
    rw [hv]
    rfl
  · rintro v hv
    rw [hv]
    rfl
  · cases effective .peer (lit "presharedkey") lines with
    | none => rfl
    | some v =>
      by_cases hv : v = []
      · subst hv
        rfl
      · rw [Option.getD_some, if_neg hv, Option.filter_some, if_pos (decide_eq_true hv)]

/-- **`wgToOutbound_common`** — on a configuration the two generators agree. -/
theorem wgToOutbound_common (hL : LowersAscii L) {text : Text} {lines : List Line}
    (h : Config text lines) (name : Text) :
    (wgToOutbound L name text).map Outbound.toCommon =
      (wgToProxy L name text).map Proxy.toCommon := by
  have hsame : readConf L Singbox.header? text = readConf L Mihomo.header? text := by
    rw [readConf, readConf, readConf_written hL singbox_readsHeaders h.written,
      readConf_written hL mihomo_readsHeaders h.written]
  rw [wgToOutbound, wgToProxy, hsame, Option.map_map, Option.map_map]
  rfl

/-- Where there is an address there is an `Address` line. -/
theorem exists_effective_address {lines : List Line} {a : Text} (ha : a ∈ (addresses lines).head?) :
    ∃ v, effective .interface (lit "address") lines = some v := by
  obtain ⟨kv, hkv, -⟩ := List.mem_flatMap.mp (List.mem_of_mem_head? ha)
  obtain ⟨hmem, hkey⟩ := List.mem_filter.mp hkv
  refine Option.ne_none_iff_exists'.mp fun hnone => ?_
  have hother := List.lookup_eq_none_iff.mp hnone kv (List.mem_reverse.mpr hmem)
  rw [of_decide_eq_true hkey] at hother
  simp at hother

/-- **`wgToProxy_carries_iff`** — the proxy has what the configuration says exactly when the endpoint
has no brackets and the last `Address` line begins with the first address. -/
theorem wgToProxy_carries_iff (hL : LowersAscii L) (hN : ReadsNumbers L) {text : Text}
    {lines : List Line} (h : Config text lines) (name : Text) :
    (∃ p, wgToProxy L name text = some p ∧ Carries lines p) ↔ Plain lines := by
  obtain ⟨c, hc, hkeys, hserver⟩ := common_config hL hN mihomo_readsHeaders h name
  have haddress := (readConf_lookup hL mihomo_readsHeaders h (lit "address")).1
  rw [wgToProxy, hc]
  simp only [Option.map_some, Option.some.injEq, exists_eq_left', getOr, haddress]
  have hwritten : ∀ host : LinkHost, host.written = host.text ↔ host.bracketed = false := fun host => by
    unfold LinkHost.written
    cases host.bracketed with
    | false => simp
    | true =>
      refine iff_of_false (fun heq => ?_) nofun
      have hlen := congrArg List.length heq
      simp only [if_true, List.length_cons, List.length_append, List.length_nil] at hlen
      omega
  constructor
  · rintro ⟨-, hip, hendpoint⟩
    refine ⟨fun host port he => ?_, fun v hv a ha => ?_⟩
    · rw [← hwritten, ← (hserver host port he).1]
      exact (hendpoint host port he).1
    · have hfirst := hip a ha
      rw [hv] at hfirst
      exact hfirst
  · rintro ⟨hbracket, hlast⟩
    refine ⟨hkeys, fun a ha => ?_, fun host port he => ?_⟩
    · obtain ⟨v, hv⟩ := exists_effective_address ha
      rw [hv]
      exact hlast v hv a ha
    · obtain ⟨hs, hp⟩ := hserver host port he
      exact ⟨hs.trans ((hwritten host).mpr (hbracket host port he)), hp⟩

end Lines

/-! ## Two configurations -/

/-- `codecLibrary`, with an `str.isdigit` that refuses the empty text. -/
def confLibrary : Library :=
  { codecLibrary with isdigit := fun t => !t.isEmpty && t.all Char.isDigit }

theorem confLibrary_lowersAscii : LowersAscii confLibrary where
  whole _ _ := rfl
  front _ u _ := ⟨u.map Char.toLower, List.map_append.symm⟩

theorem confLibrary_readsNumbers : ReadsNumbers confLibrary where
  isdigit _ _ := rfl
  int n _ := by
    have hdigits : decimal n ≠ [] ∧ (decimal n).all Char.isDigit = true :=
      ⟨Nat.toDigits_ne_nil, List.all_eq_true.mpr (decimal_digits n)⟩
    have hvalue : Nat.ofDigitChars 10 (decimal n) 0 = n :=
      Nat.ofDigitChars_toDigits (by omega) (by omega)
    show (if decimal n ≠ [] ∧ (decimal n).all Char.isDigit = true then
      some ((Nat.ofDigitChars 10 (decimal n) 0 : Nat) : Int) else none) = some (n : Int)
    rw [if_pos hdigits, hvalue]

def sampleLines (endpoint : Text) : List Line :=
  [.header .interface, .setting (lit "privatekey") (lit "k="),
    .setting (lit "address") (lit "10.0.0.2/32"), .blank, .header .peer,
    .setting (lit "publickey") (lit "p="), .setting (lit "endpoint") endpoint, .blank]

def sampleRaws (endpoint : Text) : List Text :=
  [lit "[Interface]", lit "privatekey=k=", lit " Address\t= 10.0.0.2/32 # us", lit "# peer",
    lit "[Peer]", lit "PublicKey = p=", lit "ENDPOINT = " ++ endpoint, []]

theorem sample_written {endpoint : Text} (hstrip : strip endpoint = endpoint)
    (hplain : '#' ∉ endpoint) : List.Forall₂ Written (sampleLines endpoint) (sampleRaws endpoint) := by
  have hgap : ∀ t : Text, t.all isSpace = true → Gap t := fun t h => List.all_eq_true.mp h
  have hsetting : ∀ {raw v : Text} (a key b c t k : Text),
      raw = a ++ (key ++ (b ++ '=' :: (c ++ (v ++ t)))) →
      (a.all isSpace && b.all isSpace && c.all isSpace && (before '#' t).all isSpace &&
        (key.map Char.toLower == k) && !k.isEmpty &&
        k.all fun d => (lit "abcdefghijklmnopqrstuvwxyz").contains d) = true →
      strip v = v → '#' ∉ v → Written (.setting k v) raw := by
    rintro raw v a key b c t k rfl hall hv hmark
    simp only [Bool.and_eq_true, beq_iff_eq] at hall
    obtain ⟨⟨⟨⟨⟨⟨ha, hb⟩, hc⟩, ht⟩, hkey⟩, hk⟩, hletters⟩ := hall
    refine .setting (hgap a ha) hkey (by simpa using hk) (fun d hd => ?_) (hgap b hb) (hgap c hc) hv
      hmark (hgap _ ht)
    exact List.contains_iff_mem.mp (List.all_eq_true.mp hletters d hd)
  have hheader : ∀ s : Section, ∀ name : Text, name.map Char.toLower = s.word →
      Written (.header s) ('[' :: (name ++ [']'])) := fun s name hname =>
    .header (List.forall_mem_nil _) hname (List.forall_mem_nil _)
  refine .cons (hheader .interface (lit "Interface") (by decide)) ?_
  refine .cons (hsetting [] (lit "privatekey") [] [] [] _ (by decide) (by decide) (by decide)
    (by decide)) ?_
  refine .cons (hsetting (lit " ") (lit "Address") (lit "\t") (lit " ") (lit " # us") _ (by decide)
    (by decide) (by decide) (by decide)) ?_
  refine .cons (.blank (hgap _ (by decide))) ?_
  refine .cons (hheader .peer (lit "Peer") (by decide)) ?_
  refine .cons (hsetting [] (lit "PublicKey") (lit " ") (lit " ") [] _ (by decide) (by decide)
    (by decide) (by decide)) ?_
  refine .cons (hsetting [] (lit "ENDPOINT") (lit " ") (lit " ") [] _ (by simp [lit]) (by decide)
    hstrip hplain) ?_
  exact .cons (.blank (hgap _ (by decide))) .nil

theorem sample_config {text : Text} {host : LinkHost} {port : Nat} (hport : port ≤ 65535)
    (htext : pyLines text = sampleRaws (host.withPort port)) :
    Config text (sampleLines (host.withPort port)) where
  written := by
    rw [htext]
    refine sample_written (strip_of_noSpace fun c hc => (mem_withPort hc).1) fun hmem => ?_
    exact (mem_withPort hmem).2 (by decide)
  sections := List.Perm.refl _
  headed := List.forall_mem_nil _
  endpoint v hv := ⟨host, port, hport, (Option.some.inj hv).symm⟩
  mtu v hv := nomatch hv

def sampleConf (endpoint : Text) : Text :=
  lit "[Interface]\nprivatekey=k=\n Address\t= 10.0.0.2/32 # us\n# peer\n[Peer]\nPublicKey = p=\n" ++
    (lit "ENDPOINT = " ++ (endpoint ++ ['\n']))

/-- An endpoint with an IPv4 address. -/
theorem wgToProxy_carries_v4 :
    ∃ p, wgToProxy confLibrary (lit "us") (sampleConf (sampleHost.withPort 51820)) = some p ∧
      Carries (sampleLines (sampleHost.withPort 51820)) p := by
  have hconfig : Config (sampleConf (sampleHost.withPort 51820))
      (sampleLines (sampleHost.withPort 51820)) := sample_config (by decide) (by decide)
  refine (wgToProxy_carries_iff confLibrary_lowersAscii confLibrary_readsNumbers hconfig
    (lit "us")).mpr ⟨fun host port he => ?_, fun v hv a ha => ?_⟩
  · have hendpoint : effective .peer (lit "endpoint") (sampleLines (sampleHost.withPort 51820)) =
        some (sampleHost.withPort 51820) := rfl
    obtain ⟨hwritten, -⟩ := withPort_injective (Option.some.inj (hendpoint.symm.trans he))
    by_contra hbracket
    rw [Bool.not_eq_false] at hbracket
    have hhead : sampleHost.written.head? = some '5' := by decide
    rw [hwritten, LinkHost.written, if_pos hbracket] at hhead
    exact absurd (Option.some.inj hhead) (by decide)
  · obtain rfl : lit "10.0.0.2/32" = v := Option.some.inj hv
    obtain rfl : lit "10.0.0.2/32" = a := by
      have hfirst : (addresses (sampleLines (sampleHost.withPort 51820))).head? =
          some (lit "10.0.0.2/32") := by decide
      exact Option.some.inj (hfirst.symm.trans ha)
    decide

/-- `[2001:db8::1]` -/
def sampleHost6 : LinkHost where
  text := lit "2001:db8::1"
  bracketed := true
  nonempty := by decide
  plain := List.all_iff_forall_prop.mp (by decide)

/-- The brackets of an IPv6 address become part of the server. -/
theorem wgToProxy_keeps_brackets :
    ¬ ∀ (L : Library) (name text : Text) (lines : List Line), LowersAscii L → ReadsNumbers L →
      Config text lines → ∃ p, wgToProxy L name text = some p ∧ Carries lines p := by
  intro hclaim
  obtain ⟨p, hp, hcarries⟩ := hclaim confLibrary (lit "us")
    (sampleConf (sampleHost6.withPort 51820)) (sampleLines (sampleHost6.withPort 51820))
    confLibrary_lowersAscii confLibrary_readsNumbers (sample_config (by decide) (by decide))
  have hserver : (wgToProxy confLibrary (lit "us")
      (sampleConf (sampleHost6.withPort 51820))).map (·.server) = some (lit "[2001:db8::1]") := by
    decide
  have hbare := (hcarries.endpoint sampleHost6 51820 rfl).1
  rw [hp, Option.map_some, Option.some.injEq, hbare] at hserver
  revert hserver
  decide

end ProxyGateway.Exits.WgProxy
