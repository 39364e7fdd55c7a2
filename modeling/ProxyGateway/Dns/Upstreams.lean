/-
# ProxyGateway.Dns.Upstreams — an upstream on its way from the command to its readers

`normalize_dns_upstreams` checks each token as an endpoint: the whole token if that is an IP address,
otherwise what stands before and behind the last colon.  It drops the port if that is 53 and prints the
rest, so host and port of an IPv6 endpoint run together, and `render_remote_dns_servers` and
`dns_upstreams_with_ports` have to tell them apart again.  They do, since all three ask `ip_address`
about the same text (`dnsdistUpstreamAddress_item`).

What does not get through is a scope.  `ip_address` takes `fe80::1%eth0`, and so does the check; the
renderer lets only hexadecimal digits, colons and dots pass, and skips the upstream with a warning.
-/
import ProxyGateway.Dns.CustomDns
import ProxyGateway.Lang.HostPort

namespace ProxyGateway.Dns

open ProxyGateway.Lang

/-! ## The renderer -/

/-- What is known of `ip_address`, and of the pattern for a port. -/
structure DnsTools.Parses (T : DnsTools) : Prop where
  /-- an IPv4 text has no colon, an IPv6 text at least two -/
  colons : ∀ t, T.isIp t = true → ':' ∉ t ∨ 2 ≤ t.count ':'
  /-- an address without a scope -/
  chars : ∀ t, T.isIp t = true → '%' ∉ t → isAddressText t = true
  /-- `^[0-9]+$` -/
  port : ∀ p, T.isPort p = true → ∀ c ∈ p, c.isDigit = true

/-- The line of a server in the configuration of dnsdist. -/
def serverLine (pool pre : Text) (order : Nat) (address : Text) : Text :=
  lit "newServer(\x7baddress=\"" ++ address ++ lit "\", pool=\"" ++ pool ++ lit "\", name=\"" ++
    pre ++ decimal order ++ lit "\", order=" ++ decimal order ++ lit ", useClientSubnet=true\x7d)"

section Renderer

variable (T : DnsTools)

/-- **`dnsdist_upstream_address`** -/
def DnsTools.dnsdistUpstreamAddress (item : Text) : Text :=
  if item.contains ':' then
    if T.isIp item then
      if 2 ≤ item.count ':' then '[' :: item ++ lit "]:53" else item ++ lit ":53"
    else if (hostOf item).contains ':' then '[' :: hostOf item ++ lit "]:" ++ portOf item
    else hostOf item ++ ':' :: portOf item
  else item ++ lit ":53"

/-- The loop of `render_remote_dns_servers`; what is skipped does not count. -/
def DnsTools.renderFrom (pool pre : Text) : Nat → List Text → List Text
  | _, [] => []
  | order, item :: items =>
    if isAddressText item then
      serverLine pool pre order (T.dnsdistUpstreamAddress item) ::
        DnsTools.renderFrom pool pre (order + 1) items
    else DnsTools.renderFrom pool pre order items

/-- **`render_remote_dns_servers`** -/
def DnsTools.renderRemoteDnsServers (input pool pre : Text) : List Text :=
  T.renderFrom pool pre 1
    (if input = [] then T.defaultRemoteDns else words (commasToBlanks input))

/-! ## Endpoints -/

/-- `$host` and `$port` in `normalize_dns_upstreams`. -/
def DnsTools.endpoint (item : Text) : Text × Text :=
  if !item.contains ':' || T.isIp item then (item, lit "53") else (hostOf item, portOf item)

/-- An endpoint as an address with a port; only the host of an IPv6 address has colons. -/
def addressOf (e : Text × Text) : Text :=
  if ':' ∈ e.1 then '[' :: e.1 ++ lit "]:" ++ e.2 else e.1 ++ ':' :: e.2

/-- The endpoints that are checked for a list. -/
def DnsTools.endpoints (input : Text) : List (Text × Text) :=
  (words (commasToBlanks input)).map T.endpoint

/-- **`Carried`** — one server line and one element for each token, in order, with its endpoint. -/
structure DnsTools.Carried (input out pool pre : Text) : Prop where
  servers : T.renderRemoteDnsServers out pool pre =
    (T.endpoints input).mapIdx fun i e => serverLine pool pre (i + 1) (addressOf e)
  upstreams : (T.dnsUpstreamsWithPorts out).splitOn ',' = (T.endpoints input).map addressOf

end Renderer

/-! ## One address, two functions -/

section Addresses

variable {T : DnsTools}

theorem eq_hostOf_append {item : Text} (h : ':' ∈ item) :
    item = hostOf item ++ ':' :: portOf item := eq_append_last h

/-- What stands in front of the last colon of an address. -/
def bracketed (host : Text) : Text := if ':' ∈ host then '[' :: host ++ [']'] else host

theorem addressOf_eq (e : Text × Text) : addressOf e = bracketed e.1 ++ ':' :: e.2 := by
  unfold addressOf bracketed
  split
  · rw [show lit "]:" = [']'] ++ [':'] from rfl]
    simp only [List.cons_append, List.append_assoc, List.nil_append]
  · rfl

theorem colon_mem_bracketed {host : Text} : ':' ∈ bracketed host ↔ ':' ∈ host := by
  unfold bracketed
  split
  · next hmem => simp [hmem]
  · rfl

/-- **`addressOf_inj`** — an address says which endpoint it is of. -/
theorem addressOf_inj {d e : Text × Text} (hd : ':' ∉ d.2) (he : ':' ∉ e.2)
    (h : addressOf d = addressOf e) : d = e := by
  rw [addressOf_eq, addressOf_eq] at h
  obtain ⟨hhost, hport⟩ := append_last_inj h hd he
  have hcolon : ':' ∈ d.1 ↔ ':' ∈ e.1 := by
    rw [← colon_mem_bracketed, hhost, colon_mem_bracketed]
  refine Prod.ext ?_ hport
  unfold bracketed at hhost
  by_cases hmem : ':' ∈ d.1
  · rw [if_pos hmem, if_pos (hcolon.mp hmem)] at hhost
    simpa using hhost
  · rwa [if_neg hmem, if_neg fun hin => hmem (hcolon.mpr hin)] at hhost

/-- **`itemWithPort_eq`** — the two readers make the same of an item. -/
theorem itemWithPort_eq (T : DnsTools) (item : Text) :
    T.itemWithPort item = T.dnsdistUpstreamAddress item := by
  unfold DnsTools.itemWithPort DnsTools.dnsdistUpstreamAddress
  cases hcolon : item.contains ':' with
  | false =>
    have hcount : item.count ':' = 0 := by
      rw [List.count_eq_zero]
      intro hmem
      rw [List.contains_iff_mem.mpr hmem] at hcolon
      nomatch hcolon
    simp [hcount]
  | true =>
    cases T.isIp item with
    | true => simp
    | false =>
      have hsplit := eq_hostOf_append (List.contains_iff_mem.mp hcolon)
      simp only [Bool.not_false, Bool.and_self, if_true, Bool.false_eq_true, if_false]
      split
      · rfl
      · exact hsplit

theorem mem_itemWithPort {item : Text} {c : Char} (h : c ∈ T.itemWithPort item) :
    c ∈ item ∨ c ∈ lit "[]:53" := by
  have hhost : ∀ d ∈ hostOf item, d ∈ item := fun d hd =>
    (List.rdropWhile_prefix _ _).subset ((List.dropLast_sublist _).subset hd)
  have hport : ∀ d ∈ portOf item, d ∈ item := fun d hd => (List.rtakeWhile_suffix _ _).subset hd
  have hmarks : ∀ d ∈ lit "[" ++ lit "]:" ++ lit "]:53" ++ lit ":53", d ∈ lit "[]:53" :=
    List.all_iff_forall_prop.mp (by decide)
  unfold DnsTools.itemWithPort at h
  split at h
  · split at h
    · rcases List.mem_append.mp h with h | h
      · rcases List.mem_append.mp h with h | h
        · rcases List.mem_cons.mp h with rfl | h
          · exact .inr (by decide)
          · exact .inl (hhost c h)
        · exact .inr (hmarks c (by simp [h]))
      · exact .inl (hport c h)
    · exact .inl h
  · split at h
    · rcases List.mem_append.mp h with h | h
      · rcases List.mem_cons.mp h with rfl | h
        · exact .inr (by decide)
        · exact .inl h
      · exact .inr (hmarks c (by simp [h]))
    · rcases List.mem_append.mp h with h | h
      · exact .inl h
      · exact .inr (hmarks c (by simp [h]))

/-- A host that stands alone. -/
theorem dnsdistUpstreamAddress_host (hT : T.Parses) {host : Text} (hip : T.isIp host = true) :
    T.dnsdistUpstreamAddress host = addressOf (host, lit "53") := by
  unfold DnsTools.dnsdistUpstreamAddress addressOf
  by_cases hcolon : ':' ∈ host
  · have hcount : 2 ≤ host.count ':' := (hT.colons host hip).resolve_left fun hno => hno hcolon
    rw [if_pos (List.contains_iff_mem.mpr hcolon), if_pos hip, if_pos hcount, if_pos hcolon,
      show lit "]:53" = lit "]:" ++ lit "53" from rfl, List.append_assoc]
  · rw [if_neg (by simpa using hcolon), if_neg hcolon]
    rfl

/-- A host with its port behind it. -/
theorem dnsdistUpstreamAddress_port {item : Text} (hcolon : ':' ∈ item)
    (hip : T.isIp item = false) :
    T.dnsdistUpstreamAddress item = addressOf (hostOf item, portOf item) := by
  unfold DnsTools.dnsdistUpstreamAddress addressOf
  rw [if_pos (List.contains_iff_mem.mpr hcolon), if_neg (by simp [hip])]
  simp

end Addresses

/-! ## One token -/

section Token

variable {T : DnsTools} {item printed : Text}

/-- The check, in terms of the endpoint. -/
theorem normalizeItem_eq (T : DnsTools) (item : Text) :
    T.normalizeItem item =
      if lit "://" <:+: item then none
      else if T.isPort (T.endpoint item).2 && T.isIp (T.endpoint item).1 then
        some (if (T.endpoint item).2 = lit "53" then (T.endpoint item).1
          else (T.endpoint item).1 ++ ':' :: (T.endpoint item).2)
      else none := by
  unfold DnsTools.normalizeItem DnsTools.endpoint
  cases !item.contains ':' || T.isIp item with
  | true => rfl
  | false => rfl

/-- What the check has found out about a token that it takes. -/
theorem normalizeItem_eq_some (h : T.normalizeItem item = some printed) :
    T.isIp (T.endpoint item).1 = true ∧ T.isPort (T.endpoint item).2 = true ∧
      printed = if (T.endpoint item).2 = lit "53" then (T.endpoint item).1
        else (T.endpoint item).1 ++ ':' :: (T.endpoint item).2 := by
  rw [normalizeItem_eq] at h
  split at h
  · nomatch h
  · split at h
    · next hcond =>
      obtain ⟨hport, hip⟩ := Bool.and_eq_true_iff.mp hcond
      exact ⟨hip, hport, (Option.some.inj h).symm⟩
    · nomatch h

/-- The two forms of what is printed: a host, or a token that has host and port in it. -/
theorem printed_cases (h : T.normalizeItem item = some printed) :
    printed = (T.endpoint item).1 ∧ (T.endpoint item).2 = lit "53" ∨
      printed = item ∧ ':' ∈ item ∧ T.isIp item = false ∧
        T.endpoint item = (hostOf item, portOf item) := by
  obtain ⟨hip, -, hprinted⟩ := normalizeItem_eq_some h
  by_cases hport : (T.endpoint item).2 = lit "53"
  · rw [if_pos hport] at hprinted
    exact .inl ⟨hprinted, hport⟩
  · rw [if_neg hport] at hprinted
    cases hwhole : !item.contains ':' || T.isIp item with
    | true =>
      refine absurd ?_ hport
      rw [DnsTools.endpoint, if_pos hwhole]
    | false =>
      obtain ⟨hcolon, hnot⟩ := Bool.or_eq_false_iff.mp hwhole
      have hmem : ':' ∈ item := by simpa using hcolon
      have hend : T.endpoint item = (hostOf item, portOf item) := by
        rw [DnsTools.endpoint, if_neg (Bool.eq_false_iff.mp hwhole)]
      rw [hend] at hprinted
      exact .inr ⟨hprinted.trans (eq_hostOf_append hmem).symm, hmem, hnot, hend⟩

/-- **`dnsdistUpstreamAddress_item`** — what is printed of a token is read as its endpoint. -/
theorem dnsdistUpstreamAddress_item (hT : T.Parses) (h : T.normalizeItem item = some printed) :
    T.dnsdistUpstreamAddress printed = addressOf (T.endpoint item) := by
  obtain ⟨hip, -, -⟩ := normalizeItem_eq_some h
  rcases printed_cases h with ⟨rfl, hport⟩ | ⟨rfl, hcolon, hnot, hend⟩
  · rw [dnsdistUpstreamAddress_host hT hip, ← hport]
  · rw [dnsdistUpstreamAddress_port hcolon hnot, hend]

/-- A token is its host, or host and port with a colon between them. -/
theorem item_eq_endpoint (T : DnsTools) (item : Text) : item = (T.endpoint item).1 ∨
    item = (T.endpoint item).1 ++ ':' :: (T.endpoint item).2 := by
  cases hwhole : !item.contains ':' || T.isIp item with
  | true =>
    left
    rw [DnsTools.endpoint, if_pos hwhole]
  | false =>
    right
    rw [DnsTools.endpoint, if_neg (Bool.eq_false_iff.mp hwhole)]
    exact eq_hostOf_append (by simpa using (Bool.or_eq_false_iff.mp hwhole).1)

theorem printed_subset (h : T.normalizeItem item = some printed) : printed ⊆ item := by
  rcases printed_cases h with ⟨rfl, -⟩ | ⟨rfl, -⟩
  · intro c hc
    rcases item_eq_endpoint T item with heq | heq
    · rwa [heq]
    · rw [heq]
      exact List.mem_append_left _ hc
  · exact fun c hc => hc

theorem isAddressText_iff {t : Text} : isAddressText t = true ↔
    t ≠ [] ∧ ∀ c ∈ t, c.isDigit = true ∨ c ∈ lit "ABCDEFabcdef:." := by
  simp [isAddressText]

theorem scope_not_mem {t : Text} (h : isAddressText t = true) : '%' ∉ t := by
  intro hmem
  rcases (isAddressText_iff.mp h).2 _ hmem with hc | hc
  · nomatch hc
  · exact absurd hc (by decide)

/-- **`isAddressText_printed`** — what is printed of a token gets past the renderer unless the token has
a scope. -/
theorem isAddressText_printed (hT : T.Parses) (h : T.normalizeItem item = some printed) :
    isAddressText printed = true ↔ '%' ∉ item := by
  obtain ⟨hip, hport, -⟩ := normalizeItem_eq_some h
  have hdigits := hT.port _ hport
  -- the port has no scope
  have hscope : '%' ∈ item ↔ '%' ∈ (T.endpoint item).1 := by
    rcases item_eq_endpoint T item with heq | heq
    · rw [← heq]
    · conv_lhs => rw [heq]
      rw [List.mem_append, List.mem_cons]
      constructor
      · rintro (hmem | hmem | hmem)
        · exact hmem
        · nomatch hmem
        · nomatch hdigits _ hmem
      · exact Or.inl
  constructor
  · intro haddress hmem
    have hnot := scope_not_mem haddress
    rcases printed_cases h with ⟨heq, -⟩ | ⟨heq, -⟩
    · exact hnot (heq ▸ hscope.mp hmem)
    · exact hnot (heq ▸ hmem)
  · intro hmem
    have hhost := hT.chars _ hip fun hin => hmem (hscope.mpr hin)
    obtain ⟨hhostne, hchars⟩ := isAddressText_iff.mp hhost
    obtain ⟨-, -, hprinted⟩ := normalizeItem_eq_some h
    rw [hprinted]
    split
    · exact hhost
    · rw [isAddressText_iff]
      refine ⟨by simp, ?_⟩
      intro c hc
      rcases List.mem_append.mp hc with hc | hc
      · exact hchars c hc
      · rcases List.mem_cons.mp hc with rfl | hc
        · exact .inr (by decide)
        · exact .inl (hdigits c hc)

theorem printed_ne_nil (hT : T.Parses) (h : T.normalizeItem item = some printed) : printed ≠ [] := by
  obtain ⟨hip, -, hprinted⟩ := normalizeItem_eq_some h
  have hhost : (T.endpoint item).1 ≠ [] := by
    intro hnil
    rw [hnil] at hip
    exact (isAddressText_iff.mp (hT.chars [] hip List.not_mem_nil)).1 rfl
  rw [hprinted]
  split
  · exact hhost
  · simp

end Token

/-! ## Lists -/

section Lists

variable {T : DnsTools}

/-- A text that is one token. -/
structure Token (t : Text) : Prop where
  nonempty : t ≠ []
  chars : ∀ c ∈ t, c ≠ ' ' ∧ c ≠ '\t' ∧ c ≠ '\n'

theorem token_of_mem_words {input t : Text} (h : t ∈ words input) : Token t := by
  obtain ⟨hmem, hne⟩ := List.mem_filter.mp h
  refine ⟨by simpa using hne, fun c hc => ?_⟩
  obtain ⟨hin, hsep⟩ := mem_of_mem_splitOnP hmem hc
  rw [Bool.or_eq_false_iff, beq_eq_false_iff_ne, beq_eq_false_iff_ne] at hsep
  refine ⟨hsep.1, hsep.2, ?_⟩
  rintro rfl
  exact not_mem_before hin

theorem comma_not_mem_words {input t : Text} (h : t ∈ words (commasToBlanks input)) : ',' ∉ t := by
  intro hmem
  obtain ⟨hsplit, -⟩ := List.mem_filter.mp h
  have hin := (List.takeWhile_sublist _).subset (mem_of_mem_splitOnP hsplit hmem).1
  obtain ⟨c, -, hc⟩ := List.mem_map.mp hin
  split at hc
  · nomatch hc
  · next hne => exact hne hc

theorem mem_joinWith {sep c : Char} {items : List Text} (h : c ∈ joinWith sep items) :
    c = sep ∨ ∃ t ∈ items, c ∈ t := by
  induction items with
  | nil => nomatch h
  | cons t items ih =>
    cases items with
    | nil => exact .inr ⟨t, List.mem_cons_self .., by simpa [joinWith] using h⟩
    | cons u items =>
      rw [joinWith, List.intercalate_cons_cons, List.append_assoc] at h
      rcases List.mem_append.mp h with h | h
      · exact .inr ⟨t, List.mem_cons_self .., h⟩
      · rcases List.mem_cons.mp h with h | h
        · exact .inl h
        · rcases ih h with h | ⟨v, hv, hc⟩
          · exact .inl h
          · exact .inr ⟨v, List.mem_cons_of_mem _ hv, hc⟩

/-- **`words_joinWith`** — tokens printed with blanks between them are read back. -/
theorem words_joinWith {items : List Text} (h : ∀ t ∈ items, Token t) :
    words (joinWith ' ' items) = items := by
  have hnewline : '\n' ∉ joinWith ' ' items := by
    intro hmem
    rcases mem_joinWith hmem with hmem | ⟨t, ht, hc⟩
    · nomatch hmem
    · exact ((h t ht).chars _ hc).2.2 rfl
  rw [words, before_of_not_mem hnewline]
  apply fieldsFunc_listed
  apply listed_intercalate (by decide)
  intro t ht
  refine ⟨(h t ht).nonempty, fun c hc => ?_⟩
  obtain ⟨hblank, htab, -⟩ := (h t ht).chars c hc
  rw [Bool.or_eq_false_iff, beq_eq_false_iff_ne, beq_eq_false_iff_ne]
  exact ⟨hblank, htab⟩

theorem commasToBlanks_eq_self {t : Text} (h : ',' ∉ t) : commasToBlanks t = t := by
  refine (List.map_congr_left fun c hc => ?_).trans (List.map_id _)
  have hne : c ≠ ',' := by
    rintro rfl
    exact h hc
  rw [if_neg hne, id]

/-- The loop counts what it prints. -/
theorem renderFrom_eq (pool pre : Text) (order : Nat) (items : List Text) :
    T.renderFrom pool pre order items = (items.filter isAddressText).mapIdx fun i item =>
      serverLine pool pre (order + i) (T.dnsdistUpstreamAddress item) := by
  induction items generalizing order with
  | nil => rfl
  | cons item items ih =>
    rw [DnsTools.renderFrom]
    cases haddress : isAddressText item with
    | true =>
      rw [List.filter_cons_of_pos haddress, List.mapIdx_cons, ih, if_pos rfl]
      simp only [Nat.add_zero, Nat.add_assoc, Nat.add_comm 1]
    | false =>
      rw [List.filter_cons_of_neg (by simp [haddress]), if_neg Bool.false_ne_true]
      exact ih order

/-- The tokens of an accepted list, and what is printed of each. -/
theorem normalizeDnsUpstreams_eq_some {input out : Text}
    (h : T.normalizeDnsUpstreams input = some out) : ∃ items, items ≠ [] ∧ out = joinWith ' ' items ∧
      List.Forall₂ (fun item printed => T.normalizeItem item = some printed)
        (words (commasToBlanks input)) items := by
  have hall : ∀ (tokens items : List Text), tokens.mapM T.normalizeItem = some items →
      List.Forall₂ (fun item printed => T.normalizeItem item = some printed) tokens items := by
    intro tokens
    induction tokens with
    | nil =>
      intro items hmap
      obtain rfl : [] = items := by simpa using hmap
      exact .nil
    | cons item tokens ih =>
      intro items hmap
      rw [List.mapM_cons, Option.bind_eq_bind, Option.bind_eq_some_iff] at hmap
      obtain ⟨printed, hprinted, hmap⟩ := hmap
      rw [Option.bind_eq_bind, Option.bind_eq_some_iff] at hmap
      obtain ⟨rest, hrest, hitems⟩ := hmap
      obtain rfl := Option.some.inj hitems
      exact .cons hprinted (ih rest hrest)
  unfold DnsTools.normalizeDnsUpstreams at h
  split at h
  · nomatch h
  · next items hne hmap =>
    exact ⟨items, by rintro rfl; exact hne rfl, (Option.some.inj h).symm, hall _ _ hmap⟩
  · nomatch h

/-- What holds of each token holds of the list: its address, that it is one token again, and that it gets
past the renderer without a scope. -/
theorem printed_all (hT : T.Parses) {input : Text} {tokens items : List Text}
    (h : List.Forall₂ (fun item printed => T.normalizeItem item = some printed) tokens items)
    (hwords : tokens ⊆ words (commasToBlanks input)) :
    items.map T.dnsdistUpstreamAddress = (tokens.map T.endpoint).map addressOf ∧
      (∀ printed ∈ items, Token printed ∧ ',' ∉ printed) ∧
      ((∀ printed ∈ items, isAddressText printed = true) ↔ ∀ item ∈ tokens, '%' ∉ item) := by
  induction h with
  | nil => exact ⟨rfl, nofun, by simp⟩
  | @cons item printed tokens items hprinted _ ih =>
    obtain ⟨haddresses, htokens, hscopes⟩ := ih fun t ht => hwords (List.mem_cons_of_mem _ ht)
    have hitem := hwords (List.mem_cons_self ..)
    have hsub := printed_subset hprinted
    refine ⟨?_, ?_, ?_⟩
    · rw [List.map_cons, List.map_cons, List.map_cons, dnsdistUpstreamAddress_item hT hprinted,
        haddresses]
    · rw [List.forall_mem_cons]
      refine ⟨⟨⟨printed_ne_nil hT hprinted, ?_⟩, ?_⟩, htokens⟩
      · exact fun c hc => (token_of_mem_words hitem).chars c (hsub hc)
      · exact fun hmem => comma_not_mem_words hitem (hsub hmem)
    · rw [List.forall_mem_cons, List.forall_mem_cons, hscopes, isAddressText_printed hT hprinted]

/-- **`carried_iff`** — an accepted list reaches both readers, token for token, exactly if no token has a
scope. -/
theorem carried_iff (hT : T.Parses) {input out : Text}
    (h : T.normalizeDnsUpstreams input = some out) (pool pre : Text) :
    T.Carried input out pool pre ↔ ∀ item ∈ words (commasToBlanks input), '%' ∉ item := by
  obtain ⟨items, hne, rfl, hall⟩ := normalizeDnsUpstreams_eq_some h
  obtain ⟨haddresses, htokens, hscopes⟩ := printed_all hT hall fun _ ht => ht
  have hcomma : ',' ∉ joinWith ' ' items := by
    intro hmem
    rcases mem_joinWith hmem with hmem | ⟨printed, hprinted, hc⟩
    · nomatch hmem
    · exact (htokens printed hprinted).2 hc
  have hwords : words (joinWith ' ' items) = items := words_joinWith fun t ht => (htokens t ht).1
  have hservers : T.renderRemoteDnsServers (joinWith ' ' items) pool pre =
      (items.filter isAddressText).mapIdx fun i item =>
        serverLine pool pre (1 + i) (T.dnsdistUpstreamAddress item) := by
    have hjoined : joinWith ' ' items ≠ [] := by
      intro hnil
      rw [hnil] at hwords
      exact hne hwords.symm
    rw [DnsTools.renderRemoteDnsServers, if_neg hjoined, commasToBlanks_eq_self hcomma, hwords,
      renderFrom_eq]
  have hupstreams : (T.dnsUpstreamsWithPorts (joinWith ' ' items)).splitOn ',' =
      (T.endpoints input).map addressOf := by
    have hitems : items.map T.itemWithPort = (T.endpoints input).map addressOf := by
      rw [DnsTools.endpoints, ← haddresses]
      exact List.map_congr_left fun item _ => itemWithPort_eq T item
    rw [DnsTools.dnsUpstreamsWithPorts, hwords, joinWith, List.splitOn_intercalate, hitems]
    · intro address haddress hmem
      obtain ⟨printed, hprinted, rfl⟩ := List.mem_map.mp haddress
      rcases mem_itemWithPort hmem with hc | hc
      · exact (htokens printed hprinted).2 hc
      · exact absurd hc (by decide)
    · simpa using hne
  rw [← hscopes]
  constructor
  · intro hcarried
    -- a line for every token is a line for every item
    have hlen := congrArg List.length (hservers.symm.trans hcarried.servers)
    have hitems := congrArg List.length haddresses
    rw [List.length_map, List.length_map] at hitems
    rw [List.length_mapIdx, List.length_mapIdx, DnsTools.endpoints, ← hitems] at hlen
    exact List.length_filter_eq_length_iff.mp hlen
  · intro haddress
    refine ⟨?_, hupstreams⟩
    have hmap : ∀ {α : Type} (l : List α) (f : α → Text),
        (l.mapIdx fun i a => serverLine pool pre (i + 1) (f a)) =
          (l.map f).mapIdx fun i a => serverLine pool pre (i + 1) a := by
      intro α l f
      apply List.ext_getElem?
      intro i
      simp [Function.comp_def]
    rw [hservers, List.filter_eq_self.mpr haddress, hmap, DnsTools.endpoints, ← haddresses, ← hmap]
    simp only [Nat.add_comm 1]

end Lists

/-- An installation whose `ip_address` knows three addresses. -/
def scopedTools : DnsTools :=
  { dottedTools with
    isIp := fun t => t ∈ [lit "1.1.1.1", lit "2001:db8::1", lit "fe80::1%eth0"] }

theorem scopedTools_parses : scopedTools.Parses := by
  have hknown : ∀ t, scopedTools.isIp t = true →
      t ∈ [lit "1.1.1.1", lit "2001:db8::1", lit "fe80::1%eth0"] := fun t ht => by
    simpa [scopedTools] using ht
  refine ⟨?_, ?_, ?_⟩
  · intro t ht
    have hall : ∀ t ∈ [lit "1.1.1.1", lit "2001:db8::1", lit "fe80::1%eth0"],
        ':' ∉ t ∨ 2 ≤ t.count ':' := by decide
    exact hall t (hknown t ht)
  · intro t ht
    have hall : ∀ t ∈ [lit "1.1.1.1", lit "2001:db8::1", lit "fe80::1%eth0"],
        '%' ∉ t → isAddressText t = true := by decide
    exact hall t (hknown t ht)
  · intro p hp
    have hdigits : (p ≠ [] && p.all Char.isDigit) = true := hp
    exact List.all_eq_true.mp (Bool.and_eq_true_iff.mp hdigits).2

/-- An address with the default port, and one of IPv6 with its port behind it. -/
theorem carried_iff_two :
    scopedTools.Carried (lit "1.1.1.1,2001:db8::1:53530") (lit "1.1.1.1 2001:db8::1:53530")
      (lit "remote") (lit "remote") :=
  (carried_iff scopedTools_parses (by decide +kernel) _ _).mpr (by decide +kernel)

/-- A link-local resolver is accepted, and no server is rendered for it. -/
theorem scope_is_skipped :
    ¬ ∀ (T : DnsTools) (input out pool pre : Text), T.Parses →
      T.normalizeDnsUpstreams input = some out → T.Carried input out pool pre := by
  intro hclaim
  have hcarried := hclaim scopedTools (lit "fe80::1%eth0") (lit "fe80::1%eth0") (lit "remote")
    (lit "remote") scopedTools_parses (by decide +kernel)
  have hservers := hcarried.servers
  revert hservers
  decide

end ProxyGateway.Dns
