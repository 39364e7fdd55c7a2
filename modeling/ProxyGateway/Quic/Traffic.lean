/-
# ProxyGateway.Quic.Traffic — the datagrams that the QUIC proxy carries

`Sessions.step` says which goroutine moves; here the goroutines carry what they carry in the source:
the main loop its `buf[:n]`, a handler its copy `data`, a relay the bytes it has read.  A received
datagram is named by its place in the order of receipt, so that two equal payloads stay two datagrams.

`Traffic.step` delegates every move to `Sessions.step`, and adds what the source adds to it: which
handler may dial (`extractSNI`, `selectBackendIPv4`), and that I/O on a closed connection fails.
Forgetting the datagrams, a run of the traffic is a run of the proxy (`reaches_proxy`), so what was
proved of the session table holds here too.
-/
import ProxyGateway.Quic.Initial
import ProxyGateway.Quic.Ownership

namespace ProxyGateway.Quic.Sessions

open ProxyGateway.Lang ProxyGateway.Logic

variable {K : Type}

/-! ## Choosing a backend -/

/-- `net.IP.To4`: four bytes, or sixteen that hold an IPv4-mapped address. -/
def to4 (ip : Bytes) : Option Bytes :=
  if ip.length = 4 then some ip
  else if ip.length = 16 ∧ ip.take 12 = List.replicate 10 0 ++ [0xff, 0xff] then some (ip.drop 12)
  else none

/-- **`selectBackendIPv4`** — the first address that has an IPv4 form. -/
def selectBackendIPv4 (ips : List Bytes) : Option Bytes := ips.findSome? to4

/-- What `handleNewSession` has found out when it dials: the name in the datagram, the answer of
`net.LookupIP`, and the address chosen from it. -/
structure Backend where
  sni : Bytes
  ips : List Bytes
  ip : Bytes
  deriving DecidableEq, Repr

/-- `handleNewSession` dials this backend for this datagram. -/
structure Dials (c : Crypto) (data : Bytes) (b : Backend) : Prop where
  sni : extractSNI c data = .ok b.sni
  nonempty : b.sni ≠ []
  ip : selectBackendIPv4 b.ips = some b.ip

/-! ## Data -/

/-- A received datagram: its place in the order of receipt, and its bytes. -/
structure Datagram where
  id : Nat
  bytes : Bytes
  deriving DecidableEq, Repr

/-- A `Write` on a backend connection that succeeded, by the main loop or by a handler. -/
structure Sent where
  session : SessionId
  datagram : Datagram
  byMain : Bool
  deriving DecidableEq, Repr

/-- A `WriteToUDP` that succeeded: the address written to, and the session whose relay wrote. -/
structure Answer (K : Type) where
  addr : K
  session : SessionId
  bytes : Bytes
  deriving DecidableEq, Repr

/-- The proxy with the datagrams in its goroutines, and a log of its I/O. -/
structure Traffic (K : Type) where
  proxy : State K
  /-- the results of `ReadFromUDP` so far -/
  received : List (K × Bytes)
  /-- `buf[:n]` of the main loop -/
  buf : Option Datagram
  /-- handlers that have not dialled, by the datagram they were started with -/
  setup : Nat → Option (K × Bytes)
  /-- `data` of a handler that has dialled -/
  data : SessionId → Option Datagram
  /-- what a connection was dialled for -/
  backend : SessionId → Backend
  sent : List Sent
  dropped : List Nat
  /-- `buf[:n]` of a relay -/
  answer : SessionId → Option Bytes
  fromBackend : SessionId → List Bytes
  toClient : List (Answer K)

/-- Actions that carry a datagram, and all the others.  The Boolean is the outcome of a write. -/
inductive Packet (K : Type) where
  | receive (k : K) (bytes : Bytes)
  | forward (ok : Bool)
  | giveUp (id : Nat)
  | dial (id : Nat) (ips : List Bytes)
  | firstWrite (s : SessionId) (ok : Bool)
  | feed (s : SessionId) (ok : Bool)
  | read (s : SessionId) (bytes : Option Bytes)
  | write (s : SessionId) (ok : Bool)
  | other (e : Event K)
  deriving DecidableEq, Repr

/-- The actions of the proxy that move no datagram. -/
def Event.silent : Event K → Bool
  | .pass _ | .gc _ => true
  | .main _ => false
  | .session _ a =>
    match a with
    | .insert | .closeOwn | .touch | .remove | .close => true
    | .feed | .firstWrite _ | .read _ | .write _ => false

/-! ## The step function -/

section Step

variable [DecidableEq K]

/-- The outcome of a `Write` on a backend connection. -/
def Traffic.deliver (t : Traffic K) (s : SessionId) (d : Datagram) (byMain ok : Bool) : Traffic K :=
  if ok then { t with sent := t.sent ++ [⟨s, d, byMain⟩] }
  else { t with dropped := t.dropped ++ [d.id] }

/-- I/O on a connection that was closed does not succeed. -/
def Traffic.succeeds (t : Traffic K) (s : SessionId) (ok : Bool) : Bool :=
  !ok || (t.proxy.session s).closed == 0

/-- `main` takes a datagram: its session is known, or a handler is started with a copy. -/
def Traffic.take (t : Traffic K) (p : State K) (k : K) (bytes : Bytes) : Traffic K :=
  match t.proxy.sessions.lookup k with
  | some _ => { t with
      proxy := p
      received := t.received ++ [(k, bytes)]
      buf := some ⟨t.received.length, bytes⟩ }
  | none => { t with
      proxy := p
      received := t.received ++ [(k, bytes)]
      setup := Function.update t.setup t.received.length (some (k, bytes)) }

/-- **`Traffic.step`** — one action of any goroutine, with what it carries.  A handler on whose
datagram `extractSNI` panics takes no step: the process ends there. -/
def Traffic.step (c : Crypto) (timeout : Int) (t : Traffic K) : Packet K → Option (Traffic K)
  | .receive k bytes =>
    (Sessions.step timeout t.proxy (.main (.receive k))).map fun p => t.take p k bytes
  | .forward ok =>
    match t.proxy.main, t.buf with
    | .forwarding s, some d =>
      if t.succeeds s ok then
        (Sessions.step timeout t.proxy (.main .forward)).map fun p =>
          { t with proxy := p, buf := none }.deliver s d true ok
      else none
    | _, _ => none
  | .giveUp id =>
    match t.setup id with
    | some (k, bytes) =>
      if extractSNI c bytes = .panic then none
      else (Sessions.step timeout t.proxy (.main (.giveUp k))).map fun p => { t with
        proxy := p
        setup := Function.update t.setup id none
        dropped := t.dropped ++ [id] }
    | none => none
  | .dial id ips =>
    match t.setup id with
    | some (k, bytes) =>
      match extractSNI c bytes, selectBackendIPv4 ips with
      | .ok (b :: sni), some ip =>
        (Sessions.step timeout t.proxy (.main (.dial k))).map fun p => { t with
          proxy := p
          setup := Function.update t.setup id none
          data := Function.update t.data t.proxy.next (some ⟨id, bytes⟩)
          backend := Function.update t.backend t.proxy.next ⟨b :: sni, ips, ip⟩ }
      | _, _ => none
    | none => none
  | .firstWrite s ok =>
    match t.data s with
    | some d =>
      if t.succeeds s ok then
        (Sessions.step timeout t.proxy (.session s (.firstWrite ok))).map fun p =>
          { t with proxy := p, data := Function.update t.data s none }.deliver s d false ok
      else none
    | none => none
  | .feed s ok =>
    match t.proxy.goroutine s, t.data s with
    | .feeding existing, some d =>
      if t.succeeds existing ok then
        (Sessions.step timeout t.proxy (.session s .feed)).map fun p =>
          { t with proxy := p, data := Function.update t.data s none }.deliver existing d false ok
      else none
    | _, _ => none
  | .read s none =>
    (Sessions.step timeout t.proxy (.session s (.read false))).map fun p => { t with proxy := p }
  | .read s (some bytes) =>
    if t.succeeds s true then
      (Sessions.step timeout t.proxy (.session s (.read true))).map fun p => { t with
        proxy := p
        answer := Function.update t.answer s (some bytes)
        fromBackend := Function.update t.fromBackend s (t.fromBackend s ++ [bytes]) }
    else none
  | .write s ok =>
    match t.answer s with
    | some bytes =>
      (Sessions.step timeout t.proxy (.session s (.write ok))).map fun p =>
        if ok then { t with
          proxy := p
          answer := Function.update t.answer s none
          toClient := t.toClient ++ [⟨t.proxy.key s, s, bytes⟩] }
        else { t with proxy := p }
    | none => none
  | .other e =>
    if e.silent then (Sessions.step timeout t.proxy e).map fun p => { t with proxy := p } else none

/-- Before the first datagram. -/
def Traffic.init (k₀ : K) : Traffic K where
  proxy := Sessions.init k₀
  received := []
  buf := none
  setup _ := none
  data _ := none
  backend _ := ⟨[], [], []⟩
  sent := []
  dropped := []
  answer _ := none
  fromBackend _ := []
  toClient := []

end Step

/-! ## Sessions keep their clients -/

/-- The session that a handler which lost the race gives its datagram to. -/
def Goroutine.target : Goroutine → Option SessionId
  | .lost existing | .feeding existing => some existing
  | _ => none

/-- `s` was dialled for client `k`. -/
def State.Serves (st : State K) (s : SessionId) (k : K) : Prop := s < st.next ∧ st.key s = k

section Addressed

variable [DecidableEq K]

/-- **`Addressed st`** — wherever a session pointer is found, it stands for the client that it is
used for. -/
structure Addressed (st : State K) : Prop where
  entry : ∀ k s, st.sessions.lookup k = some s → st.Serves s k
  main : ∀ s, st.main = .forwarding s → s < st.next
  target : ∀ t s, (st.goroutine t).target = some s → st.Serves s (st.key t)

/-- What a step does to session pointers: sessions stay what they were dialled for, and a pointer
that is held after the step was held before it, or was looked up, or is the one just inserted. -/
structure Follows (st st' : State K) : Prop where
  next : st.next ≤ st'.next
  key : ∀ s, s < st.next → st'.key s = st.key s
  entry : ∀ k s, st'.sessions.lookup k = some s →
    st.sessions.lookup k = some s ∨ st.goroutine s = .dialled ∧ st.key s = k
  main : ∀ s, st'.main = .forwarding s →
    st.main = .forwarding s ∨ ∃ k, st.sessions.lookup k = some s
  target : ∀ t s, (st'.goroutine t).target = some s →
    (st.goroutine t).target = some s ∨
      st.goroutine t = .dialled ∧ st.sessions.lookup (st.key t) = some s

theorem Follows.serves {st st' : State K} (h : Follows st st') {s : SessionId} {k : K}
    (hs : st.Serves s k) : st'.Serves s k :=
  ⟨Nat.lt_of_lt_of_le hs.1 h.next, (h.key s hs.1).trans hs.2⟩

theorem Addressed.follows {st st' : State K} (h : Addressed st) (howned : Owned st)
    (hf : Follows st st') : Addressed st' := by
  refine ⟨fun k s hk => ?_, fun s hm => ?_, fun t s ht => ?_⟩
  · rcases hf.entry k s hk with hk | ⟨hg, hkey⟩
    · exact hf.serves (h.entry k s hk)
    · exact hf.serves ⟨howned.lt_next (by simp [hg]), hkey⟩
  · rcases hf.main s hm with hm | ⟨k, hk⟩
    · exact Nat.lt_of_lt_of_le (h.main s hm) hf.next
    · exact Nat.lt_of_lt_of_le (h.entry k s hk).1 hf.next
  · have hborn : st.goroutine t ≠ .unborn := by
      intro hg
      simpa [hg, Goroutine.target] using hf.target t s ht
    rw [hf.key t (howned.lt_next hborn)]
    rcases hf.target t s ht with ht | ⟨-, hk⟩
    · exact hf.serves (h.target t s ht)
    · exact hf.serves (h.entry _ s hk)

/-- A step that takes no pointer. -/
theorem follows_frame {st st' : State K} (hnext : st'.next = st.next) (hkey : st'.key = st.key)
    (hentry : ∀ k s, st'.sessions.lookup k = some s → st.sessions.lookup k = some s)
    (hmain : ∀ s, st'.main = .forwarding s → st.main = .forwarding s)
    (htarget : ∀ t s, (st'.goroutine t).target = some s → (st.goroutine t).target = some s) :
    Follows st st' :=
  ⟨le_of_eq hnext.symm, fun s _ => by rw [hkey], fun k s hk => Or.inl (hentry k s hk),
    fun s hm => Or.inl (hmain s hm), fun t s ht => Or.inl (htarget t s ht)⟩

/-- A goroutine moves on and gives nothing to another session, or to the one it already had. -/
theorem follows_setGoroutine {st st' : State K} {s : SessionId} {g : Goroutine}
    (hnext : st'.next = st.next) (hkey : st'.key = st.key)
    (hentry : ∀ k v, st'.sessions.lookup k = some v → st.sessions.lookup k = some v)
    (hmain : st'.main = st.main) (hgor : st'.goroutine = Function.update st.goroutine s g)
    (hg : g.target = none ∨ g.target = (st.goroutine s).target) : Follows st st' := by
  refine follows_frame hnext hkey hentry (fun v hm => hmain ▸ hm) fun t v ht => ?_
  rw [hgor] at ht
  by_cases hts : t = s
  · subst hts
    rw [Function.update_self] at ht
    rcases hg with hg | hg
    · rw [hg] at ht
      cases ht
    · rwa [hg] at ht
  · rwa [Function.update_of_ne hts] at ht

theorem stepMain_follows {st st' : State K} {a : MainAction K} (h : stepMain st a = some st') :
    Follows st st' := by
  cases a with
  | receive k =>
    simp only [stepMain] at h
    split at h <;> cases h
    · rename_i s _ hk
      refine ⟨le_rfl, fun _ _ => rfl, fun _ _ => Or.inl, fun s' hm => Or.inr ⟨k, ?_⟩,
        fun _ _ => Or.inl⟩
      cases hm
      exact hk
    · exact follows_frame rfl rfl (fun _ _ => id) (fun _ => id) fun _ _ => id
  | forward =>
    simp only [stepMain] at h
    split at h <;> cases h
    exact follows_frame rfl (st.touch_key _) (fun _ _ => id) (fun _ hm => by cases hm) fun _ _ => id
  | giveUp k =>
    simp only [stepMain] at h
    split at h <;> cases h
    exact follows_frame rfl rfl (fun _ _ => id) (fun _ => id) fun _ _ => id
  | dial k =>
    simp only [stepMain] at h
    split at h <;> cases h
    refine ⟨Nat.le_succ _, fun s hs => ?_, fun _ _ => Or.inl, fun _ => Or.inl, fun t s ht => ?_⟩
    · simp [State.key, Nat.ne_of_lt hs]
    · by_cases hts : t = st.next
      · simp [hts, Goroutine.target] at ht
      · exact Or.inl (by simpa [hts] using ht)

theorem insertSession_follows {st : State K} {s : SessionId} (hg : st.goroutine s = .dialled) :
    Follows st (insertSession st s) := by
  unfold insertSession
  split
  · -- the race is lost: the session found under the address is remembered
    rename_i existing hk
    refine ⟨le_rfl, fun _ _ => rfl, fun _ _ => Or.inl, fun _ => Or.inl, fun t v ht => ?_⟩
    by_cases hts : t = s
    · subst hts
      have hv : existing = v := by simpa [Goroutine.target] using ht
      exact Or.inr ⟨hg, hv ▸ hk⟩
    · exact Or.inl (by simpa [hts] using ht)
  · refine ⟨le_rfl, fun _ _ => rfl, fun k v hk => ?_, fun _ => Or.inl, fun t v ht => ?_⟩
    · have hk' : (st.sessions.insert (st.key s) s).lookup k = some v := hk
      by_cases hks : k = st.key s
      · rw [hks, AList.lookup_insert] at hk'
        cases hk'
        exact Or.inr ⟨hg, hks.symm⟩
      · rw [AList.lookup_insert_ne hks] at hk'
        exact Or.inl hk'
    · by_cases hts : t = s
      · simp [hts, Goroutine.target] at ht
      · exact Or.inl (by simpa [hts] using ht)

theorem stepSession_follows {st st' : State K} {s : SessionId} {a : SessionAction}
    (h : stepSession st s a = some st') : Follows st st' := by
  cases a with
  | insert =>
    simp only [stepSession] at h
    split at h <;> cases h
    rename_i hg
    exact insertSession_follows hg.1
  | closeOwn =>
    simp only [stepSession] at h
    split at h <;> cases h
    rename_i hg
    exact follows_setGoroutine rfl (by simp) (fun _ _ => id) rfl rfl (Or.inr (by rw [hg]; rfl))
  | feed | close =>
    simp only [stepSession] at h
    split at h <;> cases h
    exact follows_setGoroutine rfl (by simp) (fun _ _ => id) rfl rfl (Or.inl rfl)
  | firstWrite ok | read ok | write ok =>
    simp only [stepSession] at h
    split at h <;> cases h
    refine follows_setGoroutine rfl rfl (fun _ _ => id) rfl rfl (Or.inl ?_)
    cases ok <;> rfl
  | touch =>
    simp only [stepSession] at h
    split at h <;> cases h
    exact follows_setGoroutine rfl (by simp) (fun _ _ => id) rfl rfl (Or.inl rfl)
  | remove =>
    simp only [stepSession] at h
    split at h
    · split at h <;> cases h
      · exact follows_setGoroutine rfl rfl (fun _ _ => lookup_erase_some) rfl rfl (Or.inl rfl)
      · exact follows_setGoroutine rfl rfl (fun _ _ => id) rfl rfl (Or.inl rfl)
    · cases h

theorem stepGc_follows {timeout : Int} {st st' : State K} {a : GcAction K}
    (h : stepGc timeout st a = some st') : Follows st st' := by
  -- the collector holds no pointer that anybody uses
  have hgc : ∀ g, Follows st { st with gc := g } := fun g =>
    follows_frame rfl rfl (fun _ _ => id) (fun _ => id) fun _ _ => id
  cases a with
  | tick =>
    simp only [stepGc] at h
    split at h <;> cases h
    exact hgc _
  | lock order =>
    simp only [stepGc] at h
    split at h
    · split at h <;> cases h
      exact hgc _
    · cases h
  | visit =>
    simp only [stepGc] at h
    split at h
    · split at h
      · split at h <;> cases h
        · exact hgc _
        · exact hgc _
      · cases h
        exact hgc _
    · cases h
      exact hgc _
    · cases h
  | remove =>
    simp only [stepGc] at h
    split at h
    · split at h <;> cases h
      · exact follows_frame rfl rfl (fun _ _ => lookup_erase_some) (fun _ => id) fun _ _ => id
      · exact hgc _
    · cases h
      exact hgc _
    · cases h
  | close =>
    simp only [stepGc] at h
    split at h <;> cases h
    exact follows_frame rfl (st.closeConn_key _) (fun _ _ => id) (fun _ => id) fun _ _ => id

/-- **`step_follows`** — no action of any goroutine makes up a session pointer. -/
theorem step_follows {timeout : Int} {st st' : State K} {e : Event K}
    (h : step timeout st e = some st') : Follows st st' := by
  cases e with
  | pass d =>
    cases h
    exact follows_frame rfl rfl (fun _ _ => id) (fun _ => id) fun _ _ => id
  | main a => exact stepMain_follows h
  | session s a => exact stepSession_follows h
  | gc a => exact stepGc_follows h

theorem init_addressed (k₀ : K) : Addressed (init k₀) :=
  ⟨nofun, nofun, nofun⟩

theorem reaches_addressed {timeout : Int} {k₀ : K} {st : State K}
    (h : Reaches (step timeout) Always (init k₀) st) : Addressed st := by
  induction h with
  | init => exact init_addressed k₀
  | step h _ hs ih => exact ih.follows (reaches_owned h) (step_follows hs)

end Addressed

/-! ## Where the goroutines stand -/

/-- A handler between the dial and the write of its datagram. -/
def Goroutine.carries : Goroutine → Bool
  | .dialled | .lost _ | .feeding _ | .inserted => true
  | _ => false

/-- A goroutine that has written whatever it has read. -/
def Goroutine.settled : Goroutine → Bool
  | .gotData | .writing | .removing | .closing _ | .done => false
  | _ => true

/-- A relay between `Read` and `WriteToUDP`. -/
def Goroutine.relays : Goroutine → Bool
  | .gotData | .writing => true
  | _ => false

/-- **`Edge a g g'`** — the control flow of one session's goroutine: action `a` takes it from `g` to
`g'`. -/
inductive Edge : SessionAction → Goroutine → Goroutine → Prop
  | lose (existing : SessionId) : Edge .insert .dialled (.lost existing)
  | insert : Edge .insert .dialled .inserted
  | closeOwn (existing : SessionId) : Edge .closeOwn (.lost existing) (.feeding existing)
  | feed (existing : SessionId) : Edge .feed (.feeding existing) .done
  | firstWrite (ok : Bool) : Edge (.firstWrite ok) .inserted (if ok then .reading else .removing)
  | read (ok : Bool) : Edge (.read ok) .reading (if ok then .gotData else .removing)
  | touch : Edge .touch .gotData .writing
  | write (ok : Bool) : Edge (.write ok) .writing (if ok then .reading else .removing)
  | delete (victim : SessionId) : Edge .remove .removing (.closing victim)
  | gone : Edge .remove .removing .done
  | close (victim : SessionId) : Edge .close (.closing victim) .done

namespace Edge

variable {a : SessionAction} {g g' : Goroutine}

theorem born (h : Edge a g g') : g ≠ .unborn := by
  cases h <;> nofun

/-- A handler holds its datagram until it writes it. -/
theorem carries (h : Edge a g g') (hfeed : a ≠ .feed) (hfirst : ∀ ok, a ≠ .firstWrite ok) :
    g'.carries = g.carries := by
  cases h with
  | feed existing => exact absurd rfl hfeed
  | firstWrite ok => exact absurd rfl (hfirst ok)
  | read ok => cases ok <;> rfl
  | write ok => cases ok <;> rfl
  | _ => rfl

/-- A handler that has written its datagram holds it no longer. -/
theorem not_carries (h : Edge a g g') (ha : a = .feed ∨ ∃ ok, a = .firstWrite ok) :
    g'.carries = false := by
  rcases ha with rfl | ⟨ok, rfl⟩
  · cases h
    rfl
  · cases h
    cases ok <;> rfl

/-- A relay reads when it has written everything. -/
theorem settled_of_read {ok : Bool} (h : Edge (.read ok) g g') : g.settled = true := by
  cases h
  rfl

/-- A relay that has read has something to write. -/
theorem not_settled (h : Edge (.read true) g g') : g'.settled = false := by
  cases h
  rfl

/-- A relay that has written has nothing left. -/
theorem not_relays (h : Edge (.write true) g g') : g'.relays = false := by
  cases h
  rfl

/-- A relay holds its bytes until it writes them. -/
theorem relays (h : Edge a g g') (hrelays : g'.relays = true) :
    g.relays = true ∨ a = .read true := by
  cases h with
  | firstWrite ok => cases ok <;> cases hrelays
  | read ok =>
    cases ok with
    | true => exact Or.inr rfl
    | false => cases hrelays
  | write ok => cases ok <;> cases hrelays
  | touch => exact Or.inl rfl
  | _ => cases hrelays

/-- A goroutine that has nothing left to write had nothing left before, or has just written it. -/
theorem settled (h : Edge a g g') (hsettled : g'.settled = true) :
    g.settled = true ∨ a = .write true := by
  cases h with
  | write ok =>
    cases ok with
    | true => exact Or.inr rfl
    | false => cases hsettled
  | lose | insert | closeOwn | firstWrite | read => exact Or.inl rfl
  | _ => cases hsettled

end Edge

section Positions

variable [DecidableEq K] {timeout : Int}

/-- Only the main loop changes what the main loop holds, and who waits for a handler. -/
theorem step_main_eq {st st' : State K} {e : Event K} (h : step timeout st e = some st')
    (he : ∀ a, e ≠ .main a) :
    st'.main = st.main ∧ st'.next = st.next ∧ st'.pending = st.pending := by
  cases e with
  | pass d =>
    cases h
    exact ⟨rfl, rfl, rfl⟩
  | main a => exact absurd rfl (he a)
  | session s a =>
    cases a with
    | insert =>
      simp only [step, stepSession] at h
      split at h <;> cases h
      unfold insertSession
      split
      · exact ⟨rfl, rfl, rfl⟩
      · exact ⟨rfl, rfl, rfl⟩
    | remove =>
      simp only [step, stepSession] at h
      split at h
      · split at h <;> cases h
        · exact ⟨rfl, rfl, rfl⟩
        · exact ⟨rfl, rfl, rfl⟩
      · cases h
    | _ =>
      simp only [step, stepSession] at h
      split at h <;> cases h
      exact ⟨rfl, rfl, rfl⟩
  | gc a =>
    cases a with
    | tick | close =>
      simp only [step, stepGc] at h
      split at h <;> cases h
      exact ⟨rfl, rfl, rfl⟩
    | lock order =>
      simp only [step, stepGc] at h
      split at h
      · split at h <;> cases h
        exact ⟨rfl, rfl, rfl⟩
      · cases h
    | visit =>
      simp only [step, stepGc] at h
      split at h
      · split at h
        · split at h <;> cases h
          · exact ⟨rfl, rfl, rfl⟩
          · exact ⟨rfl, rfl, rfl⟩
        · cases h
          exact ⟨rfl, rfl, rfl⟩
      · cases h
        exact ⟨rfl, rfl, rfl⟩
      · cases h
    | remove =>
      simp only [step, stepGc] at h
      split at h
      · split at h <;> cases h
        · exact ⟨rfl, rfl, rfl⟩
        · exact ⟨rfl, rfl, rfl⟩
      · cases h
        exact ⟨rfl, rfl, rfl⟩
      · cases h

/-- Only a dial makes a session. -/
theorem step_next {st st' : State K} {e : Event K} (h : step timeout st e = some st')
    (he : ∀ k, e ≠ .main (.dial k)) : st'.next = st.next := by
  by_cases hmain : ∀ a, e ≠ .main a
  · exact (step_main_eq h hmain).2.1
  · push Not at hmain
    obtain ⟨a, rfl⟩ := hmain
    cases a with
    | receive k =>
      simp only [step, stepMain] at h
      split at h <;> cases h
      · rfl
      · rfl
    | forward | giveUp k =>
      simp only [step, stepMain] at h
      split at h <;> cases h
      rfl
    | dial k => exact absurd rfl (he k)

/-- An action of a session's goroutine moves this goroutine along its control flow, and no other. -/
theorem stepSession_edge {st st' : State K} {s : SessionId} {a : SessionAction}
    (h : stepSession st s a = some st') :
    ∃ g, Edge a (st.goroutine s) g ∧ st'.goroutine = Function.update st.goroutine s g := by
  cases a with
  | insert =>
    simp only [stepSession] at h
    split at h <;> cases h
    rename_i hg
    rw [hg.1]
    unfold insertSession
    split
    · exact ⟨_, .lose _, rfl⟩
    · exact ⟨_, .insert, rfl⟩
  | closeOwn =>
    simp only [stepSession] at h
    split at h <;> cases h
    rename_i hg
    exact ⟨_, hg ▸ .closeOwn _, rfl⟩
  | feed =>
    simp only [stepSession] at h
    split at h <;> cases h
    rename_i hg
    exact ⟨_, hg ▸ .feed _, rfl⟩
  | firstWrite ok =>
    simp only [stepSession] at h
    split at h <;> cases h
    rename_i hg
    exact ⟨_, hg ▸ .firstWrite ok, rfl⟩
  | read ok =>
    simp only [stepSession] at h
    split at h <;> cases h
    rename_i hg
    exact ⟨_, hg ▸ .read ok, rfl⟩
  | touch =>
    simp only [stepSession] at h
    split at h <;> cases h
    rename_i hg
    exact ⟨_, hg ▸ .touch, rfl⟩
  | write ok =>
    simp only [stepSession] at h
    split at h <;> cases h
    rename_i hg
    exact ⟨_, hg ▸ .write ok, rfl⟩
  | remove =>
    simp only [stepSession] at h
    split at h
    · rename_i hg
      rw [hg.1]
      split at h <;> cases h
      · exact ⟨_, .delete _, rfl⟩
      · exact ⟨_, .gone, rfl⟩
    · cases h
  | close =>
    simp only [stepSession] at h
    split at h <;> cases h
    rename_i hg
    exact ⟨_, hg ▸ .close _, rfl⟩

theorem stepGc_goroutine {timeout : Int} {st st' : State K} {a : GcAction K}
    (h : stepGc timeout st a = some st') : st'.goroutine = st.goroutine := by
  cases a with
  | tick | close =>
    simp only [stepGc] at h
    split at h <;> cases h
    rfl
  | lock order =>
    simp only [stepGc] at h
    split at h
    · split at h <;> cases h
      rfl
    · cases h
  | visit =>
    simp only [stepGc] at h
    split at h
    · split at h
      · split at h <;> cases h
        · rfl
        · rfl
      · cases h
        rfl
    · cases h
      rfl
    · cases h
  | remove =>
    simp only [stepGc] at h
    split at h
    · split at h <;> cases h
      · rfl
      · rfl
    · cases h
      rfl
    · cases h

/-- **`step_goroutine`** — a goroutine moves only by its own actions, or is born by a dial. -/
theorem step_goroutine {st st' : State K} {e : Event K} (h : step timeout st e = some st')
    (t : SessionId) : st'.goroutine t = st.goroutine t ∨
      (∃ a, e = .session t a ∧ Edge a (st.goroutine t) (st'.goroutine t)) ∨
      (∃ k, e = .main (.dial k)) ∧ t = st.next ∧ st'.goroutine t = .dialled := by
  cases e with
  | pass d =>
    cases h
    exact Or.inl rfl
  | main a =>
    cases a with
    | receive k =>
      simp only [step, stepMain] at h
      split at h <;> cases h
      · exact Or.inl rfl
      · exact Or.inl rfl
    | forward | giveUp k =>
      simp only [step, stepMain] at h
      split at h <;> cases h
      exact Or.inl rfl
    | dial k =>
      simp only [step, stepMain] at h
      split at h <;> cases h
      by_cases ht : t = st.next
      · exact Or.inr (Or.inr ⟨⟨k, rfl⟩, ht, by simp [ht]⟩)
      · exact Or.inl (by simp [ht])
  | session s a =>
    obtain ⟨g, hedge, hgor⟩ := stepSession_edge h
    by_cases ht : t = s
    · subst ht
      exact Or.inr (Or.inl ⟨a, rfl, by rw [hgor, Function.update_self]; exact hedge⟩)
    · exact Or.inl (by rw [hgor, Function.update_of_ne ht])
  | gc a => exact Or.inl (by rw [stepGc_goroutine h])

/-- A handler holds its datagram from the dial to the write. -/
theorem step_carries {st st' : State K} {e : Event K} (h : step timeout st e = some st')
    (t : SessionId) (hborn : ∀ k, e = .main (.dial k) → t ≠ st.next) (hfeed : e ≠ .session t .feed)
    (hfirst : ∀ ok, e ≠ .session t (.firstWrite ok)) :
    (st'.goroutine t).carries = (st.goroutine t).carries := by
  rcases step_goroutine h t with heq | ⟨a, rfl, hedge⟩ | ⟨⟨k, hk⟩, ht, -⟩
  · rw [heq]
  · exact hedge.carries (fun ha => hfeed (ha ▸ rfl)) fun ok ha => hfirst ok (ha ▸ rfl)
  · exact absurd ht (hborn k hk)

/-- A relay that is to write has been so, or has just read. -/
theorem step_relays {st st' : State K} {e : Event K} (h : step timeout st e = some st')
    {t : SessionId} (hrelays : (st'.goroutine t).relays = true) :
    (st.goroutine t).relays = true ∨ e = .session t (.read true) := by
  rcases step_goroutine h t with heq | ⟨a, rfl, hedge⟩ | ⟨-, -, hg⟩
  · exact Or.inl (heq ▸ hrelays)
  · rcases hedge.relays hrelays with hg | rfl
    · exact Or.inl hg
    · exact Or.inr rfl
  · rw [hg] at hrelays
    cases hrelays

/-- A goroutine with nothing to write had nothing to write, or has just written. -/
theorem step_settled {st st' : State K} {e : Event K} (howned : Owned st)
    (h : step timeout st e = some st') {t : SessionId}
    (hsettled : (st'.goroutine t).settled = true) :
    (st.goroutine t).settled = true ∨ e = .session t (.write true) := by
  rcases step_goroutine h t with heq | ⟨a, rfl, hedge⟩ | ⟨-, ht, -⟩
  · exact Or.inl (heq ▸ hsettled)
  · rcases hedge.settled hsettled with hg | rfl
    · exact Or.inl hg
    · exact Or.inr rfl
  · left
    rw [howned.fresh t (le_of_eq ht.symm)]
    rfl

end Positions

end ProxyGateway.Quic.Sessions
