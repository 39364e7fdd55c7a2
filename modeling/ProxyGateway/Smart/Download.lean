/-
# ProxyGateway.Smart.Download — `fetch` of `rules-import.py` against a hostile network

The downloader is given a URL by whoever writes a rule list, and follows redirects to URLs chosen by
the servers it talks to.  It must not be steered to an address inside the network: every hop is
resolved once, every address of the answer must be global, and the connection goes to an address of
that same answer, while the name is kept for TLS.

Name service and servers are one `World`, whose answers are functions of everything that has
happened so far: another answer at each lookup, any redirect, any failure.  `fetch` is the Python
function as a dialogue with it.  `fetch_pinned` says what the events of every such dialogue are.

What Python's library makes of a URL, an address or a header is given (`Urls`); of `response.read(n)`
only its contract is used, that it returns at most `n` bytes.
-/
import ProxyGateway.Lang.Dialogue
import ProxyGateway.Lang.Text

namespace ProxyGateway.Smart.Download

open ProxyGateway.Lang
open ProxyGateway.Lang.Dialogue

/-! ## What the program is given -/

/-- What `urlsplit` returns. -/
structure Split where
  scheme : Text
  hostname : Option Text
  username : Option Text
  password : Option Text
  /-- none where the property `port` raises -/
  port : Option (Option Nat)
  path : Text
  query : Text
  deriving DecidableEq, Repr

/-- `urllib.parse`, `ipaddress` and `int`; none where they raise `ValueError`. -/
structure Urls where
  urlsplit : Text → Option Split
  urljoin : Text → Text → Option Text
  /-- `ipaddress.ip_address(t).is_global` -/
  isGlobal : Text → Option Bool
  int : Text → Option Int
  lower : Text → Text

/-- What `getaddrinfo` does: the addresses of its answer, an `OSError`, or another exception. -/
inductive Lookup where
  | found (addresses : List Text)
  | osError
  | raises (message : Text)
  deriving DecidableEq, Repr

/-- The part of a response that is read before its body. -/
structure Response where
  status : Nat
  location : Option Text
  contentLength : Option Text
  deriving DecidableEq, Repr

/-- What becomes of one connection: a response, an `OSError` while connecting, in TLS or in the
request, or another exception. -/
inductive Attempt where
  | response (r : Response)
  | osError
  | raises (message : Text)
  deriving DecidableEq, Repr

/-- Where a connection goes, and what is asked over it. -/
structure Target where
  address : Text
  port : Nat
  serverName : Text
  path : Text
  host : Text
  deriving DecidableEq, Repr

/-- What the program does, with the answer.  `hop` marks a turn of the redirect loop. -/
inductive Event where
  | hop (url : Text)
  | lookup (host : Text) (port : Nat) (answer : Lookup)
  | connect (target : Target) (outcome : Attempt)
  | read (n : Nat) (body : Option (List UInt8))
  deriving DecidableEq, Repr

/-- Name service and servers.  They see everything that has happened. -/
structure World where
  lookup : List Event → Text → Nat → Lookup
  connect : List Event → Target → Attempt
  /-- `response.read(n)`; none where it raises -/
  read : List Event → Nat → Option (List UInt8)
  read_length : ∀ h n body, read h n = some body → body.length ≤ n

/-- A program of this module: exceptions are their messages. -/
abbrev Net (α : Type) := Dialogue Event Text α

/-! ## The program -/

section Program

variable (U : Urls) (W : World)

/-- `MAX_DOWNLOAD_BYTES` -/
def maxDownloadBytes : Nat := 20 * 1024 * 1024

/-- A string or `None` in a condition. -/
def truthy : Option Text → Bool
  | some t => t ≠ []
  | none => false

/-- `_parse_remote_url`; the URL and the hostname, which is not empty. -/
def parseRemoteUrl (url : Text) : Except Text (Split × Text) :=
  match U.urlsplit url with
  | none => .error (lit "invalid URL")
  | some parsed =>
    if U.lower parsed.scheme ≠ lit "https" then
      .error (lit "only https:// rule URLs are allowed")
    else
      match parsed.hostname with
      | none => .error (lit "rule URL must contain a hostname and no credentials")
      | some hostname =>
        if hostname = [] ∨ truthy parsed.username ∨ truthy parsed.password then
          .error (lit "rule URL must contain a hostname and no credentials")
        else .ok (parsed, hostname)

/-- `parsed.port or 443` -/
def portOr443 (parsed : Split) : Except Text Nat :=
  match parsed.port with
  | none => .error (lit "invalid port")
  | some none => .ok 443
  | some (some p) => .ok (if p = 0 then 443 else p)

/-- The loop over the answer: `addresses` so far. -/
def publicAddresses : List Text → List Text → Except Text (List Text)
  | addresses, [] => .ok addresses
  | addresses, address :: infos =>
    match U.isGlobal address with
    | none => .error (lit "not an IP address")
    | some false => .error (lit "private or non-global rule URL address is not allowed")
    | some true =>
      publicAddresses (if address ∈ addresses then addresses else addresses ++ [address]) infos

/-- `resolve_public_url`: the URL, the hostname, the port and the addresses. -/
def resolvePublicUrl (url : Text) : Net (Split × Text × Nat × List Text) := do
  let (parsed, hostname) ← lift (parseRemoteUrl U url)
  let port ← lift (portOr443 parsed)
  let answer ← ask (fun h => W.lookup h hostname port) (Event.lookup hostname port)
  match answer with
  | .osError => raise (lit "cannot resolve rule URL hostname")
  | .raises message => raise message
  | .found infos => do
    let addresses ← lift (publicAddresses U [] infos)
    if addresses = [] then raise (lit "rule URL hostname has no addresses")
    else pure (parsed, hostname, port, addresses)

/-- What is asked of the server at `address`. -/
def targetOf (parsed : Split) (hostname : Text) (port : Nat) (address : Text) : Target where
  address := address
  port := port
  serverName := hostname
  path := (if parsed.path = [] then lit "/" else parsed.path) ++
    (if parsed.query = [] then [] else '?' :: parsed.query)
  host := if parsed.port = some none ∨ parsed.port = some (some 443) then hostname
    else hostname ++ ':' :: decimal (parsed.port.join.getD 0)

/-- The loop over the addresses: the first response, none when every attempt ended in `OSError`. -/
def connectAny (target : Text → Target) : List Text → Net (Option Response)
  | [] => pure none
  | address :: addresses => do
    let outcome ← ask (fun h => W.connect h (target address)) (Event.connect (target address))
    match outcome with
    | .response r => pure (some r)
    | .osError => connectAny target addresses
    | .raises message => raise message

/-- `response.read(n)` -/
def readBody (n : Nat) : Net (List UInt8) := do
  let body ← ask (fun h => W.read h n) (Event.read n)
  match body with
  | some body => pure body
  | none => raise (lit "read failed")

/-- The body of a response with a status 2xx. -/
def download (maxBytes : Option Nat) (r : Response) : Net (List UInt8) :=
  match maxBytes with
  | some n => readBody W (min n maxDownloadBytes)
  | none => do
    let declared ← lift (if truthy r.contentLength then
        match U.int (r.contentLength.getD []) with
        | none => .error (lit "invalid Content-Length")
        | some n => .ok n
      else .ok (0 : Int))
    if (maxDownloadBytes : Int) < declared then raise (lit "rule file exceeds 20 MiB limit")
    else do
      let data ← readBody W (maxDownloadBytes + 1)
      if maxDownloadBytes < data.length then raise (lit "rule file exceeds 20 MiB limit")
      else pure data

/-- The redirect loop, with so many turns left. -/
def fetchLoop (maxBytes : Option Nat) : Nat → Text → Net (List UInt8)
  | 0, _ => raise (lit "too many redirects")
  | turns + 1, url => do
    ask (fun _ => ()) (fun _ => Event.hop url)
    let (parsed, hostname, port, addresses) ← resolvePublicUrl U W url
    let response ← connectAny W (targetOf parsed hostname port) addresses
    match response with
    | none => raise (lit "cannot connect to validated rule URL address")
    | some r =>
      if r.status ∈ [301, 302, 303, 307, 308] then
        if truthy r.location then do
          let next ← lift (match U.urljoin url (r.location.getD []) with
            | none => .error (lit "invalid redirect")
            | some next => .ok next)
          fetchLoop maxBytes turns next
        else raise (lit "redirect missing Location header")
      else if 200 ≤ r.status ∧ r.status < 300 then download U W maxBytes r
      else raise (lit "rule URL returned HTTP " ++ decimal r.status)

/-- **`fetch`** -/
def fetch (url : Text) (maxBytes : Option Nat) : Net (List UInt8) := fetchLoop U W maxBytes 6 url

end Program

/-! ## What one hop does -/

section Safety

variable (U : Urls)

/-- **`HttpsUrl url parsed hostname`** — an `https` URL with a hostname and without a non-empty user name
or password. -/
structure HttpsUrl (url : Text) (parsed : Split) (hostname : Text) : Prop where
  split : U.urlsplit url = some parsed
  https : U.lower parsed.scheme = lit "https"
  hostname_eq : parsed.hostname = some hostname
  username : truthy parsed.username = false
  password : truthy parsed.password = false

/-- **`Pinned hop`** — the events of one turn of the redirect loop.  A URL that is refused leads to
nothing.  Otherwise its hostname is looked up once, and every connection goes, under that name, to an
address of that answer, all of whose addresses are global; last, part of a body may be read. -/
def Pinned (hop : List Event) : Prop :=
  ∃ url, hop = [.hop url] ∨ ∃ parsed hostname port answer,
    ∃ (attempts : List (Target × Attempt)) (reads : List Event), HttpsUrl U url parsed hostname ∧
      hop = .hop url :: .lookup hostname port answer ::
        (attempts.map (fun a => .connect a.1 a.2) ++ reads) ∧
      (∀ a ∈ attempts, a.1.serverName = hostname ∧ a.1.port = port ∧ ∃ infos,
        answer = .found infos ∧ a.1.address ∈ infos ∧
          ∀ address ∈ infos, U.isGlobal address = some true) ∧
      ∀ e ∈ reads, ∃ n body, e = .read n body

variable {U} {W : World}

theorem parseRemoteUrl_ok {url hostname : Text} {parsed : Split}
    (h : parseRemoteUrl U url = .ok (parsed, hostname)) : HttpsUrl U url parsed hostname := by
  unfold parseRemoteUrl at h
  split at h
  · nomatch h
  · next parsed' hsplit =>
    split at h
    · nomatch h
    · next hscheme =>
      split at h
      · nomatch h
      · next hostname' hhost =>
        split at h
        · nomatch h
        · next hcred =>
          cases h
          rw [not_or, not_or] at hcred
          exact ⟨hsplit, not_not.mp hscheme, hhost, by simpa using hcred.2.1,
            by simpa using hcred.2.2⟩

/-- The addresses that come back are those of the answer, and all of the answer is global. -/
theorem publicAddresses_ok {infos addresses result : List Text}
    (h : publicAddresses U addresses infos = .ok result) :
    (∀ a ∈ infos, U.isGlobal a = some true) ∧ ∀ a ∈ result, a ∈ addresses ∨ a ∈ infos := by
  induction infos generalizing addresses with
  | nil =>
    cases h
    exact ⟨List.forall_mem_nil _, fun a ha => Or.inl ha⟩
  | cons address infos ih =>
    rw [publicAddresses] at h
    split at h
    · cases h
    · cases h
    · next hglobal =>
      obtain ⟨hinfos, hresult⟩ := ih h
      refine ⟨List.forall_mem_cons.mpr ⟨hglobal, hinfos⟩, fun a ha => ?_⟩
      rcases hresult a ha with hmem | hmem
      · split at hmem
        · exact Or.inl hmem
        · rcases List.mem_append.mp hmem with hmem | hmem
          · exact Or.inl hmem
          · exact Or.inr (List.mem_cons.mpr (Or.inl (List.mem_singleton.mp hmem)))
      · exact Or.inr (List.mem_cons_of_mem _ hmem)

/-- What `resolve_public_url` has done, and what its result is worth. -/
def Resolved (U : Urls) (url : Text) (es : List Event) :
    Except Text (Split × Text × Nat × List Text) → Prop
  | .error _ => es = [] ∨ ∃ parsed hostname port answer, HttpsUrl U url parsed hostname ∧
      es = [.lookup hostname port answer]
  | .ok (parsed, hostname, port, addresses) => ∃ infos, HttpsUrl U url parsed hostname ∧
      es = [.lookup hostname port (.found infos)] ∧ (∀ a ∈ addresses, a ∈ infos) ∧
      ∀ a ∈ infos, U.isGlobal a = some true

theorem resolvePublicUrl_emits (url : Text) :
    Emits (resolvePublicUrl U W url) (Resolved U url) := by
  refine emits_lift_bind ?_ fun _ _ => Or.inl rfl
  rintro ⟨parsed, hostname⟩ hparsed
  have hurl := parseRemoteUrl_ok hparsed
  refine emits_lift_bind ?_ fun _ _ => Or.inl rfl
  intro port _
  refine emits_ask_bind fun answer => ?_
  have hfail : ∀ x : Text, Resolved U url [.lookup hostname port answer] (.error x) := fun _ =>
    Or.inr ⟨parsed, hostname, port, answer, hurl, rfl⟩
  cases answer with
  | osError => exact emits_raise (hfail _)
  | raises message => exact emits_raise (hfail message)
  | found infos =>
    refine emits_lift_bind ?_ fun x _ => hfail x
    intro addresses haddresses
    obtain ⟨hglobal, hmem⟩ := publicAddresses_ok haddresses
    split
    · exact emits_raise (hfail _)
    · refine emits_pure ⟨infos, hurl, rfl, fun a ha => ?_, hglobal⟩
      exact (hmem a ha).resolve_left List.not_mem_nil

/-- The connections of a hop go to the addresses it was given. -/
theorem connectAny_emits (target : Text → Target) (addresses : List Text) :
    Emits (connectAny W target addresses) fun es _ => ∃ attempts : List (Target × Attempt),
      es = attempts.map (fun a => .connect a.1 a.2) ∧
        ∀ a ∈ attempts, ∃ address ∈ addresses, a.1 = target address := by
  induction addresses with
  | nil => exact emits_pure ⟨[], rfl, nofun⟩
  | cons address addresses ih =>
    refine emits_ask_bind fun outcome => ?_
    have hone : ∃ attempts : List (Target × Attempt),
        [Event.connect (target address) outcome] = attempts.map (fun a => .connect a.1 a.2) ∧
          ∀ a ∈ attempts, ∃ address' ∈ address :: addresses, a.1 = target address' := by
      refine ⟨[(target address, outcome)], rfl, ?_⟩
      intro a ha
      rw [List.mem_singleton.mp ha]
      exact ⟨address, List.mem_cons_self, rfl⟩
    cases outcome with
    | response r => exact emits_pure hone
    | raises message => exact emits_raise hone
    | osError =>
      refine ih.mono ?_
      rintro es r ⟨attempts, rfl, hattempts⟩
      refine ⟨(target address, .osError) :: attempts, rfl, List.forall_mem_cons.mpr ⟨?_, ?_⟩⟩
      · exact ⟨address, List.mem_cons_self, rfl⟩
      · intro a ha
        obtain ⟨address', hmem, heq⟩ := hattempts a ha
        exact ⟨address', List.mem_cons_of_mem _ hmem, heq⟩

/-- A result is not longer than the limit. -/
def Bounded : Except Text (List UInt8) → Prop
  | .ok body => body.length ≤ maxDownloadBytes
  | .error _ => True

/-- What a download has read, and how long its result is. -/
def Reads (es : List Event) (r : Except Text (List UInt8)) : Prop :=
  (∀ e ∈ es, ∃ n body, e = Event.read n body) ∧ Bounded r

theorem readBody_emits (n : Nat) : Emits (readBody W n) fun es r =>
    (∀ e ∈ es, ∃ n body, e = Event.read n body) ∧ ∀ body, r = .ok body → body.length ≤ n := by
  refine Emits.bind (Q := fun es r => ∃ body, es = [.read n body] ∧ r = .ok body ∧
    ∀ b, body = some b → b.length ≤ n)
    (emits_ask fun h => ⟨_, rfl, rfl, fun b hb => W.read_length h n b hb⟩) ?_ ?_
  · rintro es body ⟨_, rfl, hbody, hlen⟩
    cases hbody
    have hread : ∀ e ∈ [Event.read n body], ∃ n body, e = Event.read n body := by
      intro e he
      exact ⟨n, body, List.mem_singleton.mp he⟩
    cases body with
    | none => exact emits_raise ⟨hread, nofun⟩
    | some body =>
      refine emits_pure ⟨hread, fun b hb => ?_⟩
      cases hb
      exact hlen _ rfl
  · rintro es x ⟨body, -, hx, -⟩
    nomatch hx

theorem download_emits (maxBytes : Option Nat) (r : Response) :
    Emits (download U W maxBytes r) Reads := by
  cases maxBytes with
  | some n =>
    refine (readBody_emits (min n maxDownloadBytes)).mono ?_
    rintro es (x | body) ⟨hread, hlen⟩
    · exact ⟨hread, trivial⟩
    · exact ⟨hread, (hlen body rfl).trans (min_le_right _ _)⟩
  | none =>
    refine emits_lift_bind ?_ fun _ _ => ⟨nofun, trivial⟩
    intro declared _
    split
    · exact emits_raise ⟨nofun, trivial⟩
    · refine (readBody_emits _).bind ?_ fun es x h => ⟨h.1, trivial⟩
      rintro es data ⟨hread, -⟩
      split
      · exact emits_raise ⟨by simpa using hread, trivial⟩
      · next hle => exact emits_pure ⟨by simpa using hread, Nat.le_of_not_lt hle⟩

/-! ## The whole run -/

/-- **`Hops turns es r`** — the events are those of at most `turns` pinned hops, and the result is
bounded. -/
def Hops (U : Urls) (turns : Nat) (es : List Event) (r : Except Text (List UInt8)) : Prop :=
  (∃ hops : List (List Event), es = hops.flatten ∧ hops.length ≤ turns ∧
    ∀ hop ∈ hops, Pinned U hop) ∧ Bounded r

/-- A run that ends in its first hop. -/
theorem hops_one {turns : Nat} {es : List Event} {r : Except Text (List UInt8)}
    (hpinned : Pinned U es) (hbounded : Bounded r) : Hops U (turns + 1) es r := by
  refine ⟨⟨[es], by simp, by simp, ?_⟩, hbounded⟩
  intro hop hmem
  rwa [List.mem_singleton.mp hmem]

/-- A run that goes on after its first hop. -/
theorem hops_cons {turns : Nat} {es es' : List Event} {r : Except Text (List UInt8)}
    (hpinned : Pinned U es) (h : Hops U turns es' r) : Hops U (turns + 1) (es ++ es') r := by
  obtain ⟨⟨hops, rfl, hlen, hall⟩, hbounded⟩ := h
  refine ⟨⟨es :: hops, rfl, ?_, List.forall_mem_cons.mpr ⟨hpinned, hall⟩⟩, hbounded⟩
  rw [List.length_cons]
  omega

theorem fetchLoop_emits (maxBytes : Option Nat) (turns : Nat) (url : Text) :
    Emits (fetchLoop U W maxBytes turns url) (Hops U turns) := by
  -- each turn is one hop
  induction turns generalizing url with
  | zero => exact emits_raise ⟨⟨[], rfl, le_rfl, nofun⟩, trivial⟩
  | succ turns ih =>
    refine emits_ask_bind fun _ => ?_
    refine (resolvePublicUrl_emits url).bind ?_ ?_
    · rintro es ⟨parsed, hostname, port, addresses⟩ ⟨infos, hurl, rfl, hmem, hglobal⟩
      refine (connectAny_emits (targetOf parsed hostname port) addresses).bind ?_ ?_
      · rintro es response ⟨attempts, rfl, hattempts⟩
        -- whatever is read afterwards, the hop is pinned
        have hpinned : ∀ reads : List Event, (∀ e ∈ reads, ∃ n body, e = Event.read n body) →
            Pinned U (.hop url :: ([.lookup hostname port (.found infos)] ++
              (attempts.map (fun a => .connect a.1 a.2) ++ reads))) := by
          intro reads hreads
          refine ⟨url, Or.inr ⟨parsed, hostname, port, .found infos, attempts, reads, hurl, rfl, ?_,
            hreads⟩⟩
          intro a ha
          obtain ⟨address, haddress, heq⟩ := hattempts a ha
          rw [heq]
          exact ⟨rfl, rfl, infos, rfl, hmem address haddress, hglobal⟩
        have hlast := hpinned [] nofun
        cases response with
        | none => exact emits_raise (hops_one hlast trivial)
        | some r =>
          simp only
          split
          · split
            · refine emits_lift_bind ?_ fun _ _ => hops_one hlast trivial
              intro next _
              refine (ih next).mono fun es r hr => ?_
              have hcons := hops_cons hlast hr
              rwa [List.cons_append, List.append_assoc, List.append_assoc, List.nil_append]
                at hcons
            · exact emits_raise (hops_one hlast trivial)
          · split
            · refine (download_emits maxBytes r).mono ?_
              rintro es r ⟨hreads, hbounded⟩
              exact hops_one (hpinned es hreads) hbounded
            · exact emits_raise (hops_one hlast trivial)
      · rintro es x ⟨attempts, rfl, hattempts⟩
        refine hops_one ⟨url, Or.inr ⟨parsed, hostname, port, .found infos, attempts, [], hurl, ?_,
          ?_, nofun⟩⟩ trivial
        · rw [List.append_nil]
          rfl
        · intro a ha
          obtain ⟨address, haddress, heq⟩ := hattempts a ha
          rw [heq]
          exact ⟨rfl, rfl, infos, rfl, hmem address haddress, hglobal⟩
    · rintro es x (rfl | ⟨parsed, hostname, port, answer, hurl, rfl⟩)
      · exact hops_one ⟨url, Or.inl rfl⟩ trivial
      · exact hops_one ⟨url, Or.inr ⟨parsed, hostname, port, answer, [], [], hurl, rfl, nofun,
          nofun⟩⟩ trivial

/-- **`fetch_pinned`** — against every world, the events of a download are those of at most six hops,
each to an `https` URL without credentials, looked up once, and connected only to addresses of that
answer, all of which are global; what is returned is at most `MAX_DOWNLOAD_BYTES` long. -/
theorem fetch_pinned (U : Urls) (W : World) (url : Text) (maxBytes : Option Nat)
    (history : List Event) :
    ∃ hops : List (List Event),
      (fetch U W url maxBytes history).2 = history ++ hops.flatten ∧ hops.length ≤ 6 ∧
        (∀ hop ∈ hops, Pinned U hop) ∧
        ∀ body, (fetch U W url maxBytes history).1 = .ok body → body.length ≤ maxDownloadBytes := by
  obtain ⟨es, hes, ⟨hops, rfl, hlen, hall⟩, hbounded⟩ :=
    fetchLoop_emits (U := U) (W := W) maxBytes 6 url history
  refine ⟨hops, hes, hlen, hall, fun body hbody => ?_⟩
  have hresult : (fetchLoop U W maxBytes 6 url history).1 = .ok body := hbody
  rw [hresult] at hbounded
  exact hbounded

end Safety

end ProxyGateway.Smart.Download
