/-
# ProxyGateway.Quic.Delivery — every datagram once, to a backend of its client, and back

`Moves` lists what one action does to the datagrams (`step_moves`), and four invariants are read off
it: a received datagram is in one place (`OnePlace`), wherever it is it is the one that the client
sent (`Genuine`), the goroutines hold a datagram exactly where the source does (`Attached`), and what
a relay has read it has written or still holds (`Relayed`).
-/
import Mathlib.Data.Finset.Card
import ProxyGateway.Quic.Sender
import ProxyGateway.Quic.Traffic

namespace ProxyGateway.Quic.Sessions

open ProxyGateway.Lang ProxyGateway.Logic

variable {K : Type}

/-! ## The outcome of a write -/

section Deliver

variable (t : Traffic K) (s : SessionId) (d : Datagram) (byMain ok : Bool)

@[simp] theorem deliver_proxy : (t.deliver s d byMain ok).proxy = t.proxy := by
  cases ok <;> rfl

@[simp] theorem deliver_received : (t.deliver s d byMain ok).received = t.received := by
  cases ok <;> rfl

@[simp] theorem deliver_buf : (t.deliver s d byMain ok).buf = t.buf := by
  cases ok <;> rfl

@[simp] theorem deliver_setup : (t.deliver s d byMain ok).setup = t.setup := by
  cases ok <;> rfl

@[simp] theorem deliver_data : (t.deliver s d byMain ok).data = t.data := by
  cases ok <;> rfl

@[simp] theorem deliver_backend : (t.deliver s d byMain ok).backend = t.backend := by
  cases ok <;> rfl

@[simp] theorem deliver_answer : (t.deliver s d byMain ok).answer = t.answer := by
  cases ok <;> rfl

@[simp] theorem deliver_fromBackend : (t.deliver s d byMain ok).fromBackend = t.fromBackend := by
  cases ok <;> rfl

@[simp] theorem deliver_toClient : (t.deliver s d byMain ok).toClient = t.toClient := by
  cases ok <;> rfl

theorem mem_deliver_sent {w : Sent} (h : w ∈ (t.deliver s d byMain ok).sent) :
    w ∈ t.sent ∨ w = ⟨s, d, byMain⟩ := by
  cases ok with
  | true => simpa [Traffic.deliver] using h
  | false => exact Or.inl h

end Deliver

/-- Where an updated table has an entry. -/
theorem eq_some_of_update {α β : Type} [DecidableEq α] {f : α → Option β} {a b : α} {o : Option β}
    {x : β} (h : Function.update f a o b = some x) :
    b = a ∧ o = some x ∨ b ≠ a ∧ f b = some x := by
  by_cases hb : b = a
  · subst hb
    rw [Function.update_self] at h
    exact Or.inl ⟨rfl, h⟩
  · rw [Function.update_of_ne hb] at h
    exact Or.inr ⟨hb, h⟩

/-- What is received stays where it is. -/
theorem received_append {t : Traffic K} {i : Nat} {x y : K × Bytes}
    (h : t.received[i]? = some x) : (t.received ++ [y])[i]? = some x := by
  rw [List.getElem?_append_left (List.getElem?_eq_some_iff.mp h).1]
  exact h

/-! ## What one action does to the datagrams -/

/-- The actions that move no datagram, failing reads and writes of a relay among them. -/
def Event.quiet : Event K → Bool
  | .session _ (.read ok) | .session _ (.write ok) => !ok
  | e => e.silent

theorem Event.quiet_of_silent {e : Event K} (h : e.silent = true) : e.quiet = true := by
  cases e with
  | session s a => cases a <;> first | rfl | cases h
  | main a => cases h
  | _ => rfl

theorem Event.ne_main_of_quiet {e : Event K} (h : e.quiet = true) (a : MainAction K) :
    e ≠ .main a := by
  rintro rfl
  cases h

/-! ## The places of a datagram -/

/-- Where a received datagram can be. -/
inductive Place where
  /-- in `buf` of the main loop -/
  | buffer
  /-- with the handler that was started for it, before the dial -/
  | setup (i : Nat)
  /-- with the handler of a session -/
  | handler (s : SessionId)
  /-- written to a backend, by the write of this number -/
  | sent (n : Nat)
  /-- given up, or lost in a write that failed -/
  | dropped (n : Nat)
  deriving DecidableEq, Repr

/-- What each place holds. -/
def Traffic.slot (t : Traffic K) : Place → Option Nat
  | .buffer => t.buf.map Datagram.id
  | .setup i => (t.setup i).map fun _ => i
  | .handler s => (t.data s).map Datagram.id
  | .sent n => t.sent[n]?.map fun w => w.datagram.id
  | .dropped n => t.dropped[n]?

/-- **`OnePlace t`** — every datagram received is in exactly one place. -/
def OnePlace (t : Traffic K) : Prop := Exclusive t.slot (· < t.received.length)

theorem getElem?_append_singleton {α : Type} (l : List α) (x : α) (n : Nat) :
    (l ++ [x])[n]? = if n = l.length then some x else l[n]? := by
  split
  · rename_i hn
    subst hn
    exact List.getElem?_concat_length
  · rename_i hn
    by_cases hlt : n < l.length
    · exact List.getElem?_append_left hlt
    · rw [List.getElem?_eq_none (by simp; omega), List.getElem?_eq_none (by omega)]

section Slot

variable {t u : Traffic K} {o : Option Nat}

/-- The main loop takes a datagram, or lets it go. -/
theorem slot_buf (hbuf : u.buf.map Datagram.id = o) (hsetup : u.setup = t.setup)
    (hdata : u.data = t.data) (hsent : u.sent = t.sent) (hdropped : u.dropped = t.dropped) :
    u.slot = Function.update t.slot .buffer o := by
  funext q
  cases q <;> simp [Traffic.slot, *]

/-- A handler that has not dialled takes a datagram, or lets it go. -/
theorem slot_setup {i : Nat} {x : Option (K × Bytes)} (hbuf : u.buf = t.buf)
    (hsetup : u.setup = Function.update t.setup i x) (hx : (x.map fun _ => i) = o)
    (hdata : u.data = t.data) (hsent : u.sent = t.sent) (hdropped : u.dropped = t.dropped) :
    u.slot = Function.update t.slot (.setup i) o := by
  funext q
  cases q with
  | setup j =>
    by_cases hj : j = i
    · subst hj
      simp [Traffic.slot, hsetup, hx]
    · simp [Traffic.slot, hsetup, hj]
  | _ => simp [Traffic.slot, *]

/-- The handler of a session takes a datagram, or lets it go. -/
theorem slot_data {s : SessionId} {x : Option Datagram} (hbuf : u.buf = t.buf)
    (hsetup : u.setup = t.setup) (hdata : u.data = Function.update t.data s x)
    (hx : x.map Datagram.id = o) (hsent : u.sent = t.sent) (hdropped : u.dropped = t.dropped) :
    u.slot = Function.update t.slot (.handler s) o := by
  funext q
  cases q with
  | handler r =>
    by_cases hr : r = s
    · subst hr
      simp [Traffic.slot, hdata, hx]
    · simp [Traffic.slot, hdata, hr]
  | _ => simp [Traffic.slot, *]

/-- A datagram enters the log of the writes that succeeded. -/
theorem slot_sent {w : Sent} (hbuf : u.buf = t.buf) (hsetup : u.setup = t.setup)
    (hdata : u.data = t.data) (hsent : u.sent = t.sent ++ [w]) (hdropped : u.dropped = t.dropped) :
    u.slot = Function.update t.slot (.sent t.sent.length) (some w.datagram.id) := by
  funext q
  cases q with
  | sent n =>
    simp only [Traffic.slot, hsent, getElem?_append_singleton]
    by_cases hn : n = t.sent.length
    · simp [hn]
    · simp [hn, Traffic.slot]
  | _ => simp [Traffic.slot, *]

/-- A datagram enters the log of those that were lost. -/
theorem slot_dropped {i : Nat} (hbuf : u.buf = t.buf) (hsetup : u.setup = t.setup)
    (hdata : u.data = t.data) (hsent : u.sent = t.sent) (hdropped : u.dropped = t.dropped ++ [i]) :
    u.slot = Function.update t.slot (.dropped t.dropped.length) (some i) := by
  funext q
  cases q with
  | dropped n =>
    simp only [Traffic.slot, hdropped, getElem?_append_singleton]
    by_cases hn : n = t.dropped.length
    · simp [hn]
    · simp [hn, Traffic.slot]
  | _ => simp [Traffic.slot, *]

end Slot

/-- A received datagram goes into an empty place. -/
theorem OnePlace.receive {t t' : Traffic K} (h : OnePlace t) {q : Place} (hempty : t.slot q = none)
    {x : K × Bytes} (hrecv : t'.received = t.received ++ [x])
    (hslot : t'.slot = Function.update t.slot q (some t.received.length)) : OnePlace t' := by
  unfold OnePlace
  rw [hslot]
  refine Exclusive.acquire h hempty (Nat.lt_irrefl _) fun i => ?_
  rw [hrecv, List.length_append]
  exact Nat.lt_succ_iff_lt_or_eq

/-- A datagram changes hands. -/
theorem OnePlace.move {t u t' : Traffic K} (h : OnePlace t) {q q' : Place} {i : Nat}
    (hfull : t.slot q = some i) (hempty : t.slot q' = none) (hrecv : t'.received = t.received)
    (hout : u.slot = Function.update t.slot q none)
    (hin : t'.slot = Function.update u.slot q' (some i)) : OnePlace t' := by
  unfold OnePlace
  rw [hin, hout, hrecv]
  exact Exclusive.move h hfull hempty

/-- A datagram leaves a goroutine for one of the two logs. -/
theorem OnePlace.deliver {t u : Traffic K} (h : OnePlace t) {q : Place} {d : Datagram}
    (s : SessionId) (byMain ok : Bool) (hfull : t.slot q = some d.id)
    (hrecv : u.received = t.received) (hsent : u.sent = t.sent) (hdropped : u.dropped = t.dropped)
    (hout : u.slot = Function.update t.slot q none) : OnePlace (u.deliver s d byMain ok) := by
  cases ok with
  | true =>
    have hempty : t.slot (.sent t.sent.length) = none := by simp [Traffic.slot]
    refine h.move hfull hempty (by simpa) hout ?_
    rw [← hsent]
    exact slot_sent (w := ⟨s, d, byMain⟩) rfl rfl rfl rfl rfl
  | false =>
    have hempty : t.slot (.dropped t.dropped.length) = none := by simp [Traffic.slot]
    refine h.move hfull hempty (by simpa) hout ?_
    rw [← hdropped]
    exact slot_dropped rfl rfl rfl rfl rfl

variable [DecidableEq K] {c : Crypto} {timeout : Int}

/-- **`Moves c t e t'`** — how the traffic goes from `t` to `t'` when the proxy takes step `e`. -/
inductive Moves (c : Crypto) (t : Traffic K) : Event K → Traffic K → Prop
  | buffered (p : State K) (k : K) (bytes : Bytes) (s : SessionId)
      (hidle : t.proxy.main = .waiting)
      (hentry : t.proxy.sessions.lookup k = some s) (hmain : p.main = .forwarding s) :
      Moves c t (.main (.receive k)) { t with
        proxy := p
        received := t.received ++ [(k, bytes)]
        buf := some ⟨t.received.length, bytes⟩ }
  | started (p : State K) (k : K) (bytes : Bytes) (hidle : t.proxy.main = .waiting)
      (hentry : t.proxy.sessions.lookup k = none) (hmain : p.main = .waiting) :
      Moves c t (.main (.receive k)) { t with
        proxy := p
        received := t.received ++ [(k, bytes)]
        setup := Function.update t.setup t.received.length (some (k, bytes)) }
  | forwarded (p : State K) (s : SessionId) (d : Datagram) (ok : Bool)
      (hmain : t.proxy.main = .forwarding s) (hbuf : t.buf = some d) (hmain' : p.main = .waiting) :
      Moves c t (.main .forward) ({ t with proxy := p, buf := none }.deliver s d true ok)
  | gaveUp (p : State K) (id : Nat) (k : K) (bytes : Bytes) (hsetup : t.setup id = some (k, bytes))
      (hmain : p.main = t.proxy.main) :
      Moves c t (.main (.giveUp k)) { t with
        proxy := p
        setup := Function.update t.setup id none
        dropped := t.dropped ++ [id] }
  | dialled (p : State K) (id : Nat) (k : K) (bytes : Bytes) (b : Backend)
      (hsetup : t.setup id = some (k, bytes)) (hdials : Dials c bytes b)
      (hkey : p.key t.proxy.next = k) (hnext : p.next = t.proxy.next + 1)
      (hgor : p.goroutine t.proxy.next = .dialled) (hmain : p.main = t.proxy.main) :
      Moves c t (.main (.dial k)) { t with
        proxy := p
        setup := Function.update t.setup id none
        data := Function.update t.data t.proxy.next (some ⟨id, bytes⟩)
        backend := Function.update t.backend t.proxy.next b }
  | handed (p : State K) (s s' : SessionId) (a : SessionAction) (d : Datagram) (ok : Bool)
      (hdata : t.data s = some d)
      (hto : s' = s ∧ a = .firstWrite ok ∨ (t.proxy.goroutine s).target = some s' ∧ a = .feed) :
      Moves c t (.session s a)
        ({ t with proxy := p, data := Function.update t.data s none }.deliver s' d false ok)
  | answered (p : State K) (s : SessionId) (bytes : Bytes) :
      Moves c t (.session s (.read true)) { t with
        proxy := p
        answer := Function.update t.answer s (some bytes)
        fromBackend := Function.update t.fromBackend s (t.fromBackend s ++ [bytes]) }
  | returned (p : State K) (s : SessionId) (bytes : Bytes) (hanswer : t.answer s = some bytes) :
      Moves c t (.session s (.write true)) { t with
        proxy := p
        answer := Function.update t.answer s none
        toClient := t.toClient ++ [⟨t.proxy.key s, s, bytes⟩] }
  | quiet (p : State K) (e : Event K) (he : e.quiet = true) : Moves c t e { t with proxy := p }

/-- An action of the proxy that moves no datagram. -/
theorem moves_quiet {t t' : Traffic K} {e : Event K}
    (h : (step timeout t.proxy e).map (fun p => { t with proxy := p }) = some t')
    (he : e.quiet = true) :
    ∃ e, step timeout t.proxy e = some t'.proxy ∧ Moves c t e t' := by
  obtain ⟨p, hp, rfl⟩ := Option.map_eq_some_iff.mp h
  exact ⟨e, hp, .quiet p e he⟩

/-- **`step_moves`** — every action of the traffic is an action of the proxy that moves datagrams in
one of these ways. -/
theorem step_moves {t t' : Traffic K} {a : Packet K} (h : t.step c timeout a = some t') :
    ∃ e, step timeout t.proxy e = some t'.proxy ∧ Moves c t e t' := by
  cases a with
  | receive k bytes =>
    obtain ⟨p, hp, rfl⟩ := Option.map_eq_some_iff.mp h
    have hp' := hp
    simp only [step, stepMain] at hp'
    unfold Traffic.take
    split at hp'
    · rename_i s hidle hentry
      cases hp'
      rw [hentry]
      exact ⟨_, hp, .buffered _ k bytes s hidle hentry rfl⟩
    · rename_i hidle hentry
      cases hp'
      rw [hentry]
      exact ⟨_, hp, .started _ k bytes hidle hentry hidle⟩
    · cases hp'
  | forward ok =>
    simp only [Traffic.step] at h
    split at h
    · rename_i s d hmain hbuf
      split at h
      · obtain ⟨p, hp, rfl⟩ := Option.map_eq_some_iff.mp h
        refine ⟨_, by rw [deliver_proxy]; exact hp, ?_⟩
        refine .forwarded p s d ok hmain hbuf ?_
        simp only [step, stepMain, hmain] at hp
        cases hp
        rfl
      · cases h
    · cases h
  | giveUp id =>
    simp only [Traffic.step] at h
    split at h
    · rename_i k bytes hsetup
      split at h
      · cases h
      · obtain ⟨p, hp, rfl⟩ := Option.map_eq_some_iff.mp h
        refine ⟨_, hp, .gaveUp p id k bytes hsetup ?_⟩
        simp only [step, stepMain] at hp
        split at hp <;> cases hp
        rfl
    · cases h
  | dial id ips =>
    simp only [Traffic.step] at h
    split at h
    · rename_i k bytes hsetup
      split at h
      · rename_i b sni ip hsni hip
        obtain ⟨p, hp, rfl⟩ := Option.map_eq_some_iff.mp h
        have hp' := hp
        simp only [step, stepMain] at hp'
        split at hp' <;> cases hp'
        exact ⟨_, hp, .dialled _ id k bytes ⟨b :: sni, ips, ip⟩ hsetup ⟨hsni, List.cons_ne_nil _ _, hip⟩
          (by simp [State.key]) rfl (by simp) rfl⟩
      · cases h
    · cases h
  | firstWrite s ok =>
    simp only [Traffic.step] at h
    split at h
    · rename_i d hdata
      split at h
      · obtain ⟨p, hp, rfl⟩ := Option.map_eq_some_iff.mp h
        refine ⟨_, by rw [deliver_proxy]; exact hp, ?_⟩
        exact .handed p s s _ d ok hdata (Or.inl ⟨rfl, rfl⟩)
      · cases h
    · cases h
  | feed s ok =>
    simp only [Traffic.step] at h
    split at h
    · rename_i existing d hg hdata
      split at h
      · obtain ⟨p, hp, rfl⟩ := Option.map_eq_some_iff.mp h
        refine ⟨_, by rw [deliver_proxy]; exact hp, ?_⟩
        exact .handed p s existing _ d ok hdata (Or.inr ⟨by rw [hg]; rfl, rfl⟩)
      · cases h
    · cases h
  | read s bytes =>
    cases bytes with
    | none => exact moves_quiet h rfl
    | some bytes =>
      simp only [Traffic.step] at h
      split at h
      · obtain ⟨p, hp, rfl⟩ := Option.map_eq_some_iff.mp h
        exact ⟨_, hp, .answered p s bytes⟩
      · cases h
  | write s ok =>
    simp only [Traffic.step] at h
    split at h
    · rename_i bytes hanswer
      cases ok with
      | true =>
        obtain ⟨p, hp, rfl⟩ := Option.map_eq_some_iff.mp h
        exact ⟨_, hp, .returned p s bytes hanswer⟩
      | false => exact moves_quiet h rfl
    · cases h
  | other e =>
    simp only [Traffic.step] at h
    split at h
    · rename_i he
      exact moves_quiet h (Event.quiet_of_silent he)
    · cases h

/-- Forgetting the datagrams, a run of the traffic is a run of the proxy. -/
theorem reaches_proxy {k₀ : K} {t : Traffic K}
    (h : Reaches (Traffic.step c timeout) Always (Traffic.init k₀) t) :
    Reaches (step timeout) Always (init k₀) t.proxy := by
  induction h with
  | init => exact .init
  | step _ _ hstep ih =>
    obtain ⟨e, he, -⟩ := step_moves hstep
    exact ih.step trivial he

/-! ## Every datagram is the one its client sent -/

/-- `d` was received from the client that session `s` was dialled for. -/
def Traffic.From (t : Traffic K) (s : SessionId) (d : Datagram) : Prop :=
  s < t.proxy.next ∧ t.received[d.id]? = some (t.proxy.key s, d.bytes)

/-- **`Genuine c t`** — every datagram in a goroutine, and every one written, is as it was received
from the client of its session; every session was dialled for a name that its client asked for. -/
structure Genuine (c : Crypto) (t : Traffic K) : Prop where
  buf : ∀ s d, t.proxy.main = .forwarding s → t.buf = some d → t.From s d
  setup : ∀ i k bytes, t.setup i = some (k, bytes) → t.received[i]? = some (k, bytes)
  data : ∀ s d, t.data s = some d → t.From s d
  sent : ∀ w ∈ t.sent, t.From w.session w.datagram
  backend : ∀ s, s < t.proxy.next → ∃ d, t.From s d ∧ Dials c d.bytes (t.backend s)
  toClient : ∀ a ∈ t.toClient, a.session < t.proxy.next ∧ a.addr = t.proxy.key a.session

theorem Traffic.From.mono {t t' : Traffic K} {s : SessionId} {d : Datagram} (h : t.From s d)
    (hf : Follows t.proxy t'.proxy)
    (hrecv : ∀ (i : Nat) x, t.received[i]? = some x → t'.received[i]? = some x) : t'.From s d := by
  refine ⟨Nat.lt_of_lt_of_le h.1 hf.next, ?_⟩
  rw [hf.key s h.1]
  exact hrecv _ _ h.2

/-- Whatever is written is as genuine as what was held. -/
theorem Traffic.From.sent {t u : Traffic K} {s : SessionId} {d : Datagram} {byMain ok : Bool}
    (h : t.From s d) (hsent : u.sent = t.sent) (hrecv : u.received = t.received)
    (hf : Follows t.proxy (u.deliver s d byMain ok).proxy) :
    ∀ w ∈ (u.deliver s d byMain ok).sent, w ∈ t.sent ∨
      (u.deliver s d byMain ok).From w.session w.datagram := by
  intro w hw
  rcases mem_deliver_sent _ _ _ _ _ hw with hw | rfl
  · exact Or.inl (hsent ▸ hw)
  · refine Or.inr (h.mono hf fun i x hx => ?_)
    rw [deliver_received, hrecv]
    exact hx

/-- What an action does not touch stays genuine. -/
theorem Genuine.frame {t t' : Traffic K} (h : Genuine c t) (hf : Follows t.proxy t'.proxy)
    (hrecv : ∀ (i : Nat) x, t.received[i]? = some x → t'.received[i]? = some x)
    (hbuf : ∀ s d, t'.proxy.main = .forwarding s → t'.buf = some d →
      t.proxy.main = .forwarding s ∧ t.buf = some d ∨ t'.From s d)
    (hsetup : ∀ i x, t'.setup i = some x → t.setup i = some x ∨ t'.received[i]? = some x)
    (hdata : ∀ s d, t'.data s = some d → t.data s = some d ∨ t'.From s d)
    (hsent : ∀ w ∈ t'.sent, w ∈ t.sent ∨ t'.From w.session w.datagram)
    (hbackend : ∀ s, s < t'.proxy.next → s < t.proxy.next ∧ t'.backend s = t.backend s ∨
      ∃ d, t'.From s d ∧ Dials c d.bytes (t'.backend s))
    (htoClient : ∀ a ∈ t'.toClient, a ∈ t.toClient ∨
      a.session < t.proxy.next ∧ a.addr = t.proxy.key a.session) : Genuine c t' := by
  refine ⟨fun s d hm hb => ?_, fun i k bytes hi => ?_, fun s d hd => ?_, fun w hw => ?_,
    fun s hs => ?_, fun a ha => ?_⟩
  · rcases hbuf s d hm hb with ⟨hm, hb⟩ | hfrom
    · exact (h.buf s d hm hb).mono hf hrecv
    · exact hfrom
  · rcases hsetup i _ hi with hi | hi
    · exact hrecv _ _ (h.setup i k bytes hi)
    · exact hi
  · rcases hdata s d hd with hd | hfrom
    · exact (h.data s d hd).mono hf hrecv
    · exact hfrom
  · rcases hsent w hw with hw | hfrom
    · exact (h.sent w hw).mono hf hrecv
    · exact hfrom
  · rcases hbackend s hs with ⟨hs, hb⟩ | hnew
    · obtain ⟨d, hd, hdials⟩ := h.backend s hs
      exact ⟨d, hd.mono hf hrecv, hb ▸ hdials⟩
    · exact hnew
  · have haddr : a.session < t.proxy.next ∧ a.addr = t.proxy.key a.session :=
      (htoClient a ha).elim (h.toClient a) id
    exact ⟨Nat.lt_of_lt_of_le haddr.1 hf.next, by rw [hf.key _ haddr.1, haddr.2]⟩

/-- **`step_genuine`** — one action keeps every datagram as it was received. -/
theorem step_genuine {t t' : Traffic K} {a : Packet K} (h : Genuine c t) (howned : Owned t.proxy)
    (haddr : Addressed t.proxy) (hstep : t.step c timeout a = some t') : Genuine c t' := by
  obtain ⟨e, he, hmoves⟩ := step_moves hstep
  have hf := step_follows he
  cases hmoves with
  | buffered p k bytes s hidle hentry hmain =>
    have hserves := haddr.entry k s hentry
    have hnext := step_next he (by simp)
    refine h.frame hf (fun _ _ => received_append) (fun s' d hm hb => Or.inr ?_) (fun _ _ => Or.inl)
      (fun _ _ => Or.inl) (fun _ => Or.inl) (fun s' hs => Or.inl ⟨hnext ▸ hs, rfl⟩) fun _ => Or.inl
    obtain rfl : s = s' := Main.forwarding.inj (hmain.symm.trans hm)
    cases hb
    refine ⟨Nat.lt_of_lt_of_le hserves.1 hf.next, ?_⟩
    rw [List.getElem?_concat_length, hf.key s hserves.1, hserves.2]
  | started p k bytes hidle hentry hmain =>
    have hnext := step_next he (by simp)
    refine h.frame hf (fun _ _ => received_append) (fun s' d hm => ?_) (fun i x hx => ?_)
      (fun _ _ => Or.inl) (fun _ => Or.inl) (fun s' hs => Or.inl ⟨hnext ▸ hs, rfl⟩) fun _ => Or.inl
    · cases hmain.symm.trans hm
    · rcases eq_some_of_update hx with ⟨hi, hx'⟩ | ⟨-, hx'⟩
      · subst hi
        exact Or.inr (List.getElem?_concat_length.trans hx')
      · exact Or.inl hx'
  | forwarded p s d ok hmain hbuf hmain' =>
    have hnext := step_next he (by simp)
    refine h.frame hf (by simp) (fun s' d hm hb => ?_) (by simp +contextual) (by simp +contextual)
      ((h.buf s d hmain hbuf).sent rfl rfl hf)
      (fun s' hs => Or.inl ⟨hnext ▸ hs, by simp⟩) (by simp +contextual)
    simp at hb
  | gaveUp p i k bytes hsetup hmain =>
    have hnext := step_next he (by simp)
    refine h.frame hf (fun _ _ => id) (fun s' d hm hb => Or.inl ⟨hmain ▸ hm, hb⟩) (fun j x hx => ?_)
      (fun _ _ => Or.inl) (fun _ => Or.inl) (fun s' hs => Or.inl ⟨hnext ▸ hs, rfl⟩) fun _ => Or.inl
    rcases eq_some_of_update hx with ⟨-, hx⟩ | ⟨-, hx⟩
    · cases hx
    · exact Or.inl hx
  | dialled p i k bytes b hsetup hdials hkey hnext hgor hmain =>
    -- the new session is for the client whose datagram the handler holds
    have hlt : t.proxy.next < p.next := hnext ▸ Nat.lt_succ_self _
    have hrecv : t.received[i]? = some (p.key t.proxy.next, bytes) :=
      hkey ▸ h.setup i k bytes hsetup
    refine h.frame hf (fun _ _ => id) (fun s' d hm hb => Or.inl ⟨hmain ▸ hm, hb⟩) (fun j x hx => ?_)
      (fun s d hd => ?_) (fun _ => Or.inl) (fun s hs => ?_) fun _ => Or.inl
    · rcases eq_some_of_update hx with ⟨-, hx⟩ | ⟨-, hx⟩
      · cases hx
      · exact Or.inl hx
    · rcases eq_some_of_update hd with ⟨hs, hd'⟩ | ⟨-, hd'⟩
      · cases hd'
        exact Or.inr ⟨hs ▸ hlt, hs ▸ hrecv⟩
      · exact Or.inl hd'
    · by_cases hnew : s = t.proxy.next
      · subst hnew
        exact Or.inr ⟨⟨i, bytes⟩, ⟨hlt, hrecv⟩, by simpa using hdials⟩
      · have hs' : s < t.proxy.next + 1 := hnext ▸ hs
        exact Or.inl ⟨Nat.lt_of_le_of_ne (Nat.le_of_lt_succ hs') hnew, Function.update_of_ne hnew _ _⟩
  | handed p s s' a d ok hdata hto =>
    have hmain := step_main_eq he (by simp)
    have hfrom : t.From s' d := by
      rcases hto with ⟨rfl, -⟩ | ⟨htarget, -⟩
      · exact h.data s' d hdata
      · obtain ⟨hlt, hkey⟩ := haddr.target s s' htarget
        exact ⟨hlt, hkey ▸ (h.data s d hdata).2⟩
    refine h.frame hf (by simp) (fun s' d hm hb => Or.inl ⟨hmain.1 ▸ hm, by simpa using hb⟩)
      (by simp +contextual) (fun s' d' hd => ?_) (hfrom.sent rfl rfl hf)
      (fun s' hs => Or.inl ⟨hmain.2.1 ▸ hs, by simp⟩) (by simp +contextual)
    rw [deliver_data] at hd
    rcases eq_some_of_update hd with ⟨-, hd⟩ | ⟨-, hd⟩
    · cases hd
    · exact Or.inl hd
  | answered p s bytes =>
    have hmain := step_main_eq he (by simp)
    exact h.frame hf (fun _ _ => id) (fun s' d hm hb => Or.inl ⟨hmain.1 ▸ hm, hb⟩) (fun _ _ => Or.inl)
      (fun _ _ => Or.inl) (fun _ => Or.inl) (fun s' hs => Or.inl ⟨hmain.2.1 ▸ hs, rfl⟩) fun _ => Or.inl
  | returned p s bytes hanswer =>
    have hmain := step_main_eq he (by simp)
    refine h.frame hf (fun _ _ => id) (fun s' d hm hb => Or.inl ⟨hmain.1 ▸ hm, hb⟩) (fun _ _ => Or.inl)
      (fun _ _ => Or.inl) (fun _ => Or.inl) (fun s' hs => Or.inl ⟨hmain.2.1 ▸ hs, rfl⟩) fun a ha => ?_
    rcases List.mem_append.mp ha with ha | ha
    · exact Or.inl ha
    · obtain rfl := List.mem_singleton.mp ha
      have he' : stepSession t.proxy s (.write true) = some p := he
      obtain ⟨g, hedge, -⟩ := stepSession_edge he'
      exact Or.inr ⟨howned.lt_next hedge.born, rfl⟩
  | quiet p e hquiet =>
    have hmain := step_main_eq he (Event.ne_main_of_quiet hquiet)
    exact h.frame hf (fun _ _ => id) (fun s' d hm hb => Or.inl ⟨hmain.1 ▸ hm, hb⟩) (fun _ _ => Or.inl)
      (fun _ _ => Or.inl) (fun _ => Or.inl) (fun s' hs => Or.inl ⟨hmain.2.1 ▸ hs, rfl⟩) fun _ => Or.inl

omit [DecidableEq K] in
theorem init_genuine (k₀ : K) : Genuine c (Traffic.init k₀) :=
  ⟨nofun, nofun, nofun, nofun, nofun, nofun⟩

theorem reaches_genuine {k₀ : K} {t : Traffic K}
    (h : Reaches (Traffic.step c timeout) Always (Traffic.init k₀) t) : Genuine c t := by
  induction h with
  | init => exact init_genuine k₀
  | step h _ hstep ih =>
    have hproxy := reaches_proxy h
    exact step_genuine ih (reaches_owned hproxy) (reaches_addressed hproxy) hstep

/-! ## Every datagram is in one place -/

/-- **`step_onePlace`** — one action keeps every datagram in one place. -/
theorem step_onePlace {t t' : Traffic K} {a : Packet K} (h : OnePlace t) (hgen : Genuine c t)
    (hidle : t.proxy.main = .waiting → t.buf = none) (hstep : t.step c timeout a = some t') :
    OnePlace t' := by
  obtain ⟨e, he, hmoves⟩ := step_moves hstep
  cases hmoves with
  | buffered p k bytes s hmain hentry hmain' =>
    have hempty : t.slot .buffer = none := by simp [Traffic.slot, hidle hmain]
    exact h.receive hempty rfl (slot_buf rfl rfl rfl rfl rfl)
  | started p k bytes hidle hentry hmain =>
    -- the next number has not been given to a handler yet
    have hempty : t.slot (.setup t.received.length) = none := by
      cases hi : t.setup t.received.length with
      | none => simp [Traffic.slot, hi]
      | some x =>
        have hlt := (List.getElem?_eq_some_iff.mp (hgen.setup _ x.1 x.2 hi)).1
        exact absurd hlt (Nat.lt_irrefl _)
    exact h.receive hempty rfl (slot_setup rfl rfl rfl rfl rfl rfl)
  | forwarded p s d ok hmain hbuf hmain' =>
    have hfull : t.slot .buffer = some d.id := by simp [Traffic.slot, hbuf]
    exact h.deliver s true ok hfull rfl rfl rfl (slot_buf rfl rfl rfl rfl rfl)
  | gaveUp p i k bytes hsetup hmain =>
    have hfull : t.slot (.setup i) = some i := by simp [Traffic.slot, hsetup]
    have hempty : t.slot (.dropped t.dropped.length) = none := by simp [Traffic.slot]
    exact h.move (u := { t with setup := Function.update t.setup i none }) hfull hempty rfl
      (slot_setup rfl rfl rfl rfl rfl rfl) (slot_dropped rfl rfl rfl rfl rfl)
  | dialled p i k bytes b hsetup hdials hkey hnext hgor hmain =>
    have hfull : t.slot (.setup i) = some i := by simp [Traffic.slot, hsetup]
    have hempty : t.slot (.handler t.proxy.next) = none := by
      cases hd : t.data t.proxy.next with
      | none => simp [Traffic.slot, hd]
      | some d => exact absurd (hgen.data _ d hd).1 (Nat.lt_irrefl _)
    exact h.move (u := { t with setup := Function.update t.setup i none }) hfull hempty rfl
      (slot_setup rfl rfl rfl rfl rfl rfl) (slot_data rfl rfl rfl rfl rfl rfl)
  | handed p s s' a d ok hdata hto =>
    have hfull : t.slot (.handler s) = some d.id := by simp [Traffic.slot, hdata]
    exact h.deliver s' false ok hfull rfl rfl rfl (slot_data rfl rfl rfl rfl rfl rfl)
  | answered p s bytes => exact h
  | returned p s bytes hanswer => exact h
  | quiet p e hquiet => exact h

/-! ## The goroutines hold what the source holds there -/

/-- **`Attached t`** — the main loop, a handler and a relay hold bytes exactly between the call that
gets them and the call that writes them. -/
structure Attached (t : Traffic K) : Prop where
  buf : t.buf = none ↔ t.proxy.main = .waiting
  data : ∀ s, (t.data s).isSome = (t.proxy.goroutine s).carries
  relays : ∀ s, (t.proxy.goroutine s).relays = true → (t.answer s).isSome = true
  settled : ∀ s, (t.proxy.goroutine s).settled = true → t.answer s = none

theorem attached_buf {t t' : Traffic K} {e : Event K} (h : Attached t)
    (he : step timeout t.proxy e = some t'.proxy) (hmoves : Moves c t e t') :
    t'.buf = none ↔ t'.proxy.main = .waiting := by
  cases hmoves with
  | buffered p k bytes s hidle hentry hmain => simp [hmain]
  | started p k bytes hidle hentry hmain => simp [h.buf, hidle, hmain]
  | forwarded p s d ok hmain hbuf hmain' => simp [hmain']
  | gaveUp p i k bytes hsetup hmain => exact hmain ▸ h.buf
  | dialled p i k bytes b hsetup hdials hkey hnext hgor hmain => exact hmain ▸ h.buf
  | handed p s s' a d ok hdata hto =>
    rw [(step_main_eq he (by simp)).1, deliver_buf]
    exact h.buf
  | answered p s bytes | returned p s bytes hanswer => exact (step_main_eq he (by simp)).1 ▸ h.buf
  | quiet p e hquiet => exact (step_main_eq he (Event.ne_main_of_quiet hquiet)).1 ▸ h.buf

theorem attached_data {t t' : Traffic K} {e : Event K} (h : Attached t)
    (he : step timeout t.proxy e = some t'.proxy) (hmoves : Moves c t e t') (r : SessionId) :
    (t'.data r).isSome = (t'.proxy.goroutine r).carries := by
  cases hmoves with
  | dialled p i k bytes b hsetup hdials hkey hnext hgor hmain =>
    by_cases hr : r = t.proxy.next
    · subst hr
      simp [hgor, Goroutine.carries]
    · have hsame := step_carries he r (fun _ _ => hr) (by simp) (by simp)
      rw [hsame, ← h.data r]
      simp [hr]
  | handed p s s' a d ok hdata hto =>
    have hwrite : a = .feed ∨ ∃ ok, a = .firstWrite ok :=
      hto.elim (fun hto => Or.inr ⟨ok, hto.2⟩) fun hto => Or.inl hto.2
    by_cases hr : r = s
    · subst hr
      have he' : stepSession t.proxy r a = some _ := he
      obtain ⟨g, hedge, hgor⟩ := stepSession_edge he'
      rw [hgor, Function.update_self, hedge.not_carries hwrite]
      simp
    · have hsame := step_carries he r (by simp) (by simp [Ne.symm hr]) (by simp [Ne.symm hr])
      rw [hsame, ← h.data r]
      simp [hr]
  | quiet p e hquiet =>
    have hsame := step_carries he r (fun k hk => absurd hk (Event.ne_main_of_quiet hquiet _))
      (by rintro rfl; cases hquiet) (by rintro ok rfl; cases hquiet)
    rw [hsame]
    exact h.data r
  | _ =>
    have hsame := step_carries he r (by simp) (by simp) (by simp)
    rw [hsame]
    simpa using h.data r

theorem attached_relays {t t' : Traffic K} {e : Event K} (h : Attached t)
    (he : step timeout t.proxy e = some t'.proxy) (hmoves : Moves c t e t') {r : SessionId}
    (hg : (t'.proxy.goroutine r).relays = true) : (t'.answer r).isSome = true := by
  have hold := step_relays he hg
  cases hmoves with
  | answered p s bytes =>
    by_cases hr : r = s
    · simp [hr]
    · simpa [hr] using h.relays r (hold.resolve_right (by simp [Ne.symm hr]))
  | returned p s bytes hanswer =>
    have hr : r ≠ s := by
      rintro rfl
      have he' : stepSession t.proxy r (.write true) = some p := he
      obtain ⟨g, hedge, hgor⟩ := stepSession_edge he'
      have hg' : (p.goroutine r).relays = true := hg
      rw [hgor, Function.update_self, hedge.not_relays] at hg'
      cases hg'
    simpa [hr] using h.relays r (hold.resolve_right (by simp))
  | quiet p e hquiet =>
    refine h.relays r (hold.resolve_right ?_)
    rintro rfl
    cases hquiet
  | handed p s s' a d ok hdata hto =>
    have hne : a ≠ .read true := by
      rcases hto with ⟨-, rfl⟩ | ⟨-, rfl⟩ <;> nofun
    simpa using h.relays r (hold.resolve_right (by simp [hne]))
  | _ => simpa using h.relays r (hold.resolve_right (by simp))

theorem attached_settled {t t' : Traffic K} {e : Event K} (h : Attached t) (howned : Owned t.proxy)
    (he : step timeout t.proxy e = some t'.proxy) (hmoves : Moves c t e t') {r : SessionId}
    (hg : (t'.proxy.goroutine r).settled = true) : t'.answer r = none := by
  have hold := step_settled howned he hg
  cases hmoves with
  | answered p s bytes =>
    have hr : r ≠ s := by
      rintro rfl
      have he' : stepSession t.proxy r (.read true) = some p := he
      obtain ⟨g, hedge, hgor⟩ := stepSession_edge he'
      have hg' : (p.goroutine r).settled = true := hg
      rw [hgor, Function.update_self, hedge.not_settled] at hg'
      cases hg'
    simpa [hr] using h.settled r (hold.resolve_right (by simp))
  | returned p s bytes hanswer =>
    by_cases hr : r = s
    · simp [hr]
    · simpa [hr] using h.settled r (hold.resolve_right (by simp [Ne.symm hr]))
  | quiet p e hquiet =>
    refine h.settled r (hold.resolve_right ?_)
    rintro rfl
    cases hquiet
  | handed p s s' a d ok hdata hto =>
    have hne : a ≠ .write true := by
      rcases hto with ⟨-, rfl⟩ | ⟨-, rfl⟩ <;> nofun
    simpa using h.settled r (hold.resolve_right (by simp [hne]))
  | _ => simpa using h.settled r (hold.resolve_right (by simp))

/-- **`step_attached`** — one action keeps the bytes where the source has them. -/
theorem step_attached {t t' : Traffic K} {a : Packet K} (h : Attached t) (howned : Owned t.proxy)
    (hstep : t.step c timeout a = some t') : Attached t' := by
  obtain ⟨e, he, hmoves⟩ := step_moves hstep
  exact ⟨attached_buf h he hmoves, attached_data h he hmoves, fun _ => attached_relays h he hmoves,
    fun _ => attached_settled h howned he hmoves⟩

/-- In every reachable state the bytes are where the source has them, and each datagram is in one
place. -/
theorem reaches_attached {k₀ : K} {t : Traffic K}
    (h : Reaches (Traffic.step c timeout) Always (Traffic.init k₀) t) : Attached t ∧ OnePlace t := by
  induction h with
  | init =>
    refine ⟨⟨by simp [Traffic.init, init], fun _ => rfl, nofun, fun _ _ => rfl⟩, fun i => ?_,
      fun q q' i hq => ?_⟩
    · refine iff_of_false (Nat.not_lt_zero i) ?_
      rintro ⟨q, hq⟩
      cases q <;> simp [Traffic.slot, Traffic.init] at hq
    · cases q <;> simp [Traffic.slot, Traffic.init] at hq
  | step h _ hstep ih =>
    exact ⟨step_attached ih.1 (reaches_owned (reaches_proxy h)) hstep,
      step_onePlace ih.2 (reaches_genuine h) ih.1.buf.mpr hstep⟩

/-! ## What a relay has read it has written, or still holds -/

/-- The bytes that the relay of `s` has written to the client, in the order of writing. -/
def Traffic.answers (t : Traffic K) (s : SessionId) : List Bytes :=
  (t.toClient.filter fun a => a.session = s).map Answer.bytes

/-- **`Relayed t`** — a relay has written what it has read, in the order of reading, up to the bytes
it still holds. -/
def Relayed (t : Traffic K) : Prop :=
  ∀ s, t.fromBackend s = t.answers s ++ (t.answer s).toList

/-- **`step_relayed`** — one action of a relay reads one answer, or writes the one it holds. -/
theorem step_relayed {t t' : Traffic K} {a : Packet K} (h : Relayed t) (hatt : Attached t)
    (hstep : t.step c timeout a = some t') : Relayed t' := by
  obtain ⟨e, he, hmoves⟩ := step_moves hstep
  intro r
  cases hmoves with
  | answered p s bytes =>
    by_cases hr : r = s
    · subst hr
      have he' : stepSession t.proxy r (.read true) = some p := he
      obtain ⟨g, hedge, -⟩ := stepSession_edge he'
      have hnone : t.answer r = none := hatt.settled r hedge.settled_of_read
      have hold := h r
      rw [hnone] at hold
      simp [Traffic.answers, hold]
    · simpa [Traffic.answers, hr] using h r
  | returned p s bytes hanswer =>
    by_cases hr : r = s
    · subst hr
      have hold := h r
      rw [hanswer] at hold
      simp [Traffic.answers, hold]
    · simpa [Traffic.answers, hr, Ne.symm hr] using h r
  | _ => simpa [Traffic.answers] using h r

theorem reaches_relayed {k₀ : K} {t : Traffic K}
    (h : Reaches (Traffic.step c timeout) Always (Traffic.init k₀) t) : Relayed t := by
  induction h with
  | init => exact fun _ => rfl
  | step h _ hstep ih => exact step_relayed ih (reaches_attached h).1 hstep

/-! ## The main loop keeps the order of receipt -/

/-- The datagrams that the main loop has written itself, in the order of writing. -/
def Traffic.forwarded (t : Traffic K) : List Nat :=
  (t.sent.filter Sent.byMain).map fun w => w.datagram.id

/-- **`Ordered t`** — the main loop has written datagrams in the order in which it received them, all
of them before the one it holds. -/
structure Ordered (t : Traffic K) : Prop where
  sorted : t.forwarded.Pairwise (· < ·)
  before : ∀ d, t.buf = some d → ∀ i ∈ t.forwarded, i < d.id

omit [DecidableEq K] in
theorem forwarded_deliver (t : Traffic K) (s : SessionId) (d : Datagram) (byMain ok : Bool) :
    (t.deliver s d byMain ok).forwarded = t.forwarded ++ if byMain && ok then [d.id] else [] := by
  cases ok <;> cases byMain <;> simp [Traffic.deliver, Traffic.forwarded]

omit [DecidableEq K] in
/-- Whatever was written was received. -/
theorem Genuine.forwarded_lt {t : Traffic K} (h : Genuine c t) {i : Nat} (hi : i ∈ t.forwarded) :
    i < t.received.length := by
  obtain ⟨w, hw, rfl⟩ := List.mem_map.mp hi
  exact (List.getElem?_eq_some_iff.mp (h.sent w (List.mem_of_mem_filter hw)).2).1

/-- **`step_ordered`** — one action keeps the order of receipt. -/
theorem step_ordered {t t' : Traffic K} {a : Packet K} (h : Ordered t) (hgen : Genuine c t)
    (hstep : t.step c timeout a = some t') : Ordered t' := by
  obtain ⟨e, he, hmoves⟩ := step_moves hstep
  cases hmoves with
  | buffered p k bytes s hidle hentry hmain =>
    refine ⟨h.sorted, fun d hd i hi => ?_⟩
    cases hd
    exact hgen.forwarded_lt hi
  | forwarded p s d ok hmain hbuf hmain' =>
    refine ⟨?_, fun d' hd => ?_⟩
    · rw [forwarded_deliver]
      refine List.pairwise_append.mpr ⟨h.sorted, ?_, fun i hi j hj => ?_⟩
      · cases ok <;> simp
      · cases ok with
        | true =>
          obtain rfl := List.mem_singleton.mp hj
          exact h.before d hbuf i hi
        | false => cases hj
    · simp at hd
  | handed p s s' a d ok hdata hto =>
    have hsame : ({ t with proxy := p, data := Function.update t.data s none }.deliver s' d false
        ok).forwarded = t.forwarded := by
      rw [forwarded_deliver]
      exact List.append_nil _
    refine ⟨hsame ▸ h.sorted, fun d' hd i hi => ?_⟩
    rw [deliver_buf] at hd
    exact h.before d' hd i (hsame ▸ hi)
  | _ => exact ⟨h.sorted, h.before⟩

theorem reaches_ordered {k₀ : K} {t : Traffic K}
    (h : Reaches (Traffic.step c timeout) Always (Traffic.init k₀) t) : Ordered t := by
  induction h with
  | init => exact ⟨.nil, nofun⟩
  | step h _ hstep ih => exact step_ordered ih (reaches_genuine h) hstep

/-! ## The handlers that have not dialled are those the proxy counts -/

/-- The handlers that were started for `k` and have not dialled. -/
def Traffic.Starting (t : Traffic K) (k : K) (i : Nat) : Prop := ∃ bytes, t.setup i = some (k, bytes)

/-- **`Counted t`** — `pending` counts the handlers that have not dialled. -/
def Counted (t : Traffic K) : Prop :=
  ∀ k, ∃ handlers : Finset Nat,
    (∀ i, i ∈ handlers ↔ t.Starting k i) ∧ t.proxy.pending k = handlers.card

/-- A new handler for `k`. -/
theorem Counted.start {t t' : Traffic K} (h : Counted t) {i : Nat} {k : K} {bytes : Bytes}
    (hempty : t.setup i = none) (hsetup : t'.setup = Function.update t.setup i (some (k, bytes)))
    (hpending : t'.proxy.pending = Function.update t.proxy.pending k (t.proxy.pending k + 1)) :
    Counted t' := by
  intro k'
  obtain ⟨handlers, hmem, hcard⟩ := h k'
  have hnew : i ∉ handlers := by
    rw [hmem]
    rintro ⟨b, hb⟩
    rw [hempty] at hb
    cases hb
  by_cases hk : k' = k
  · subst hk
    refine ⟨insert i handlers, fun j => ?_, ?_⟩
    · by_cases hj : j = i <;> simp [Traffic.Starting, hsetup, hj, hmem]
    · rw [Finset.card_insert_of_notMem hnew, hpending, Function.update_self, hcard]
  · refine ⟨handlers, fun j => ?_, by rw [hpending, Function.update_of_ne hk, hcard]⟩
    by_cases hj : j = i
    · subst hj
      simp [Traffic.Starting, hsetup, Ne.symm hk, hnew]
    · simp [Traffic.Starting, hsetup, hj, hmem]

/-- A handler for `k` that dials or gives up. -/
theorem Counted.finish {t t' : Traffic K} (h : Counted t) {i : Nat} {k : K} {bytes : Bytes}
    (hfull : t.setup i = some (k, bytes)) (hsetup : t'.setup = Function.update t.setup i none)
    (hpending : t'.proxy.pending = Function.update t.proxy.pending k (t.proxy.pending k - 1)) :
    Counted t' := by
  intro k'
  obtain ⟨handlers, hmem, hcard⟩ := h k'
  refine ⟨handlers.erase i, fun j => ?_, ?_⟩
  · by_cases hj : j = i <;> simp [Traffic.Starting, hsetup, hj, hmem]
  · by_cases hk : k' = k
    · subst hk
      have hold : i ∈ handlers := (hmem i).mpr ⟨bytes, hfull⟩
      rw [Finset.card_erase_of_mem hold, hpending, Function.update_self, hcard]
    · have hother : i ∉ handlers := by
        rw [hmem]
        rintro ⟨b, hb⟩
        rw [hfull] at hb
        cases hb
        exact hk rfl
      rw [Finset.erase_eq_of_notMem hother, hpending, Function.update_of_ne hk, hcard]

/-- **`step_counted`** — one action keeps the count. -/
theorem step_counted {t t' : Traffic K} {a : Packet K} (h : Counted t) (hgen : Genuine c t)
    (hstep : t.step c timeout a = some t') : Counted t' := by
  obtain ⟨e, he, hmoves⟩ := step_moves hstep
  cases hmoves with
  | buffered p k bytes s hidle hentry hmain =>
    simp only [step, stepMain, hidle, hentry] at he
    cases he
    exact h
  | started p k bytes hidle hentry hmain =>
    simp only [step, stepMain, hidle, hentry] at he
    cases he
    refine h.start ?_ rfl rfl
    cases hi : t.setup t.received.length with
    | none => rfl
    | some x =>
      have hlt := (List.getElem?_eq_some_iff.mp (hgen.setup _ x.1 x.2 hi)).1
      exact absurd hlt (Nat.lt_irrefl _)
  | forwarded p s d ok hmain hbuf hmain' =>
    simp only [step, stepMain, hmain, deliver_proxy] at he
    cases he
    intro k
    simpa [Traffic.Starting, State.touch] using h k
  | gaveUp p i k bytes hsetup hmain =>
    simp only [step, stepMain] at he
    split at he <;> cases he
    exact h.finish hsetup rfl rfl
  | dialled p i k bytes b hsetup hdials hkey hnext hgor hmain =>
    simp only [step, stepMain] at he
    split at he <;> cases he
    exact h.finish hsetup rfl rfl
  | handed p s s' a d ok hdata hto =>
    have hpending := (step_main_eq he (by simp)).2.2
    intro k
    rw [hpending]
    simpa [Traffic.Starting] using h k
  | answered p s bytes | returned p s bytes hanswer =>
    have hpending := (step_main_eq he (by simp)).2.2
    intro k
    rw [hpending]
    exact h k
  | quiet p e hquiet =>
    have hpending := (step_main_eq he (Event.ne_main_of_quiet hquiet)).2.2
    intro k
    rw [hpending]
    exact h k

theorem reaches_counted {k₀ : K} {t : Traffic K}
    (h : Reaches (Traffic.step c timeout) Always (Traffic.init k₀) t) : Counted t := by
  induction h with
  | init =>
    refine fun k => ⟨∅, fun i => iff_of_false (Finset.notMem_empty i) ?_, rfl⟩
    rintro ⟨b, hb⟩
    cases hb
  | step h _ hstep ih => exact step_counted ih (reaches_genuine h) hstep

/-! ## The packet level adds no waiting -/

/-- A handler that has not dialled can give up, whatever the others do. -/
theorem setup_can_giveUp {k₀ : K} {t : Traffic K}
    (h : Reaches (Traffic.step c timeout) Always (Traffic.init k₀) t) {i : Nat} {k : K}
    {bytes : Bytes} (hsetup : t.setup i = some (k, bytes)) (hsni : extractSNI c bytes ≠ .panic) :
    ∃ t', t.step c timeout (.giveUp i) = some t' := by
  obtain ⟨handlers, hmem, hcard⟩ := reaches_counted h k
  have hpos : 0 < t.proxy.pending k := by
    rw [hcard]
    exact Finset.card_pos.mpr ⟨i, (hmem i).mpr ⟨bytes, hsetup⟩⟩
  simp [Traffic.step, hsetup, hsni, step, stepMain, hpos]

/-- **`step_lifts`** — what the proxy can do the traffic can do, but for the end of a handler's setup
(which its datagram decides) and for I/O that succeeds on a closed connection. -/
theorem step_lifts {k₀ : K} {t : Traffic K}
    (h : Reaches (Traffic.step c timeout) Always (Traffic.init k₀) t) {e : Event K} {p : State K}
    (he : step timeout t.proxy e = some p)
    (hsetup : ∀ k, e ≠ .main (.dial k) ∧ e ≠ .main (.giveUp k))
    (hopen : ∀ s, e = .session s (.firstWrite true) ∨ e = .session s (.read true) →
      (t.proxy.session s).closed = 0) :
    ∃ a t', t.step c timeout a = some t' ∧ t'.proxy = p := by
  obtain ⟨hatt, -⟩ := reaches_attached h
  have hsilent : ∀ {e : Event K} {p : State K}, step timeout t.proxy e = some p →
      e.silent = true → ∃ a t', t.step c timeout a = some t' ∧ t'.proxy = p := by
    intro e p he hs
    exact ⟨.other e, { t with proxy := p }, by simp [Traffic.step, hs, he], rfl⟩
  cases e with
  | pass d => exact hsilent he rfl
  | gc a => exact hsilent he rfl
  | main a =>
    cases a with
    | receive k =>
      refine ⟨.receive k [], t.take p k [], by simp [Traffic.step, he], ?_⟩
      unfold Traffic.take
      split <;> rfl
    | forward =>
      cases hmain : t.proxy.main with
      | waiting => simp [step, stepMain, hmain] at he
      | forwarding s =>
        cases hd : t.buf with
        | none => simpa [hmain] using hatt.buf.mp hd
        | some d =>
          exact ⟨.forward false, { t with proxy := p, buf := none }.deliver s d true false,
            by simp [Traffic.step, hmain, hd, Traffic.succeeds, he], by simp⟩
    | giveUp k => exact absurd rfl (hsetup k).2
    | dial k => exact absurd rfl (hsetup k).1
  | session s a =>
    have he' : stepSession t.proxy s a = some p := he
    obtain ⟨g, hedge, -⟩ := stepSession_edge he'
    have hdata := hatt.data s
    have hrelays := hatt.relays s
    generalize hg : t.proxy.goroutine s = g₀ at hedge hdata hrelays
    cases hedge with
    | feed existing =>
      obtain ⟨d, hd⟩ := Option.isSome_iff_exists.mp hdata
      exact ⟨.feed s false, { t with
        proxy := p
        data := Function.update t.data s none }.deliver existing d false false,
        by simp [Traffic.step, hg, hd, Traffic.succeeds, he], by simp⟩
    | firstWrite ok =>
      obtain ⟨d, hd⟩ := Option.isSome_iff_exists.mp hdata
      have hsucceeds : t.succeeds s ok = true := by
        cases ok with
        | true => simp [Traffic.succeeds, hopen s (Or.inl rfl)]
        | false => rfl
      exact ⟨.firstWrite s ok, { t with
        proxy := p
        data := Function.update t.data s none }.deliver s d false ok,
        by simp [Traffic.step, hd, hsucceeds, he], by simp⟩
    | read ok =>
      cases ok with
      | true =>
        have hsucceeds : t.succeeds s true = true := by
          simp [Traffic.succeeds, hopen s (Or.inr rfl)]
        exact ⟨.read s (some []), { t with
          proxy := p
          answer := Function.update t.answer s (some [])
          fromBackend := Function.update t.fromBackend s (t.fromBackend s ++ [[]]) },
          by simp [Traffic.step, hsucceeds, he], rfl⟩
      | false => exact ⟨.read s none, { t with proxy := p }, by simp [Traffic.step, he], rfl⟩
    | write ok =>
      obtain ⟨bytes, hb⟩ := Option.isSome_iff_exists.mp (hrelays rfl)
      cases ok with
      | true =>
        exact ⟨.write s true, { t with
          proxy := p
          answer := Function.update t.answer s none
          toClient := t.toClient ++ [⟨t.proxy.key s, s, bytes⟩] },
          by simp [Traffic.step, hb, he], rfl⟩
      | false => exact ⟨.write s false, { t with proxy := p }, by simp [Traffic.step, hb, he], rfl⟩
    | _ => exact hsilent he rfl

/-! ## What holds of every run -/

/-- No goroutine is at work on a datagram. -/
structure State.Quiescent (st : State K) : Prop where
  main : st.main = .waiting
  pending : ∀ k, st.pending k = 0
  handlers : ∀ s, (st.goroutine s).carries = false

/-- **`datagram_in_one_place`** — in every reachable state each datagram received so far is in exactly
one place: in the buffer of the main loop, with one handler, written once to a backend, or lost in a
failed write or a failed setup; and when no goroutine is at work on a datagram it has been written
or lost. -/
theorem datagram_in_one_place (c : Crypto) (timeout : Int) (k₀ : K) {t : Traffic K}
    (h : Reaches (Traffic.step c timeout) Always (Traffic.init k₀) t) {i : Nat}
    (hi : i < t.received.length) :
    ∃ q, t.slot q = some i ∧ (∀ q', t.slot q' = some i → q' = q) ∧
      (t.proxy.Quiescent → ∃ n, q = .sent n ∨ q = .dropped n) := by
  obtain ⟨hatt, hone⟩ := reaches_attached h
  obtain ⟨q, hq⟩ := (hone.live_iff i).mp hi
  refine ⟨q, hq, fun q' hq' => hone.unique q' q i hq' hq, fun hquiet => ?_⟩
  cases q with
  | buffer =>
    rw [Traffic.slot, hatt.buf.mpr hquiet.main] at hq
    cases hq
  | setup j =>
    cases hj : t.setup j with
    | none =>
      rw [Traffic.slot, hj] at hq
      cases hq
    | some x =>
      obtain ⟨handlers, hmem, hcard⟩ := reaches_counted h x.1
      rw [hquiet.pending, eq_comm, Finset.card_eq_zero] at hcard
      exact absurd ((hmem j).mpr ⟨x.2, hj⟩) (hcard ▸ Finset.notMem_empty j)
  | handler s =>
    have hnone : t.data s = none := by
      rw [← Option.not_isSome_iff_eq_none, hatt.data s, hquiet.handlers s]
      nofun
    rw [Traffic.slot, hnone] at hq
    cases hq
  | sent n => exact ⟨n, Or.inl rfl⟩
  | dropped n => exact ⟨n, Or.inr rfl⟩

/-- **`traffic_isolated`** — in every reachable state each write to a backend carries, unaltered, a
datagram received from the client of its session, the backend was dialled for the name that
`extractSNI` found in a datagram of that same client, and each answer was sent to that client. -/
theorem traffic_isolated (c : Crypto) (timeout : Int) (k₀ : K) {t : Traffic K}
    (h : Reaches (Traffic.step c timeout) Always (Traffic.init k₀) t) :
    (∀ w ∈ t.sent, t.received[w.datagram.id]? = some (t.proxy.key w.session, w.datagram.bytes) ∧
      ∃ (i : Nat) (hello : Bytes), t.received[i]? = some (t.proxy.key w.session, hello) ∧
        Dials c hello (t.backend w.session)) ∧
    (∀ a ∈ t.toClient, a.bytes ∈ t.fromBackend a.session ∧
      ∃ (i : Nat) (hello : Bytes), t.received[i]? = some (a.addr, hello) ∧
        Dials c hello (t.backend a.session)) := by
  have hgen := reaches_genuine h
  refine ⟨fun w hw => ?_, fun a ha => ⟨?_, ?_⟩⟩
  · obtain ⟨hlt, hrecv⟩ := hgen.sent w hw
    obtain ⟨d, hd, hdials⟩ := hgen.backend w.session hlt
    exact ⟨hrecv, d.id, d.bytes, hd.2, hdials⟩
  · rw [reaches_relayed h a.session]
    refine List.mem_append_left _ (List.mem_map.mpr ⟨a, ?_, rfl⟩)
    exact List.mem_filter.mpr ⟨ha, by simp⟩
  · obtain ⟨hlt, haddr⟩ := hgen.toClient a ha
    obtain ⟨d, hd, hdials⟩ := hgen.backend a.session hlt
    exact ⟨d.id, d.bytes, haddr ▸ hd.2, hdials⟩

/-- **`traffic_in_order`** — in every reachable state the main loop has forwarded datagrams in the
order of receipt, and the relay of a session has sent its client what it read from the backend, in
that order, all of it but at most the last. -/
theorem traffic_in_order (c : Crypto) (timeout : Int) (k₀ : K) {t : Traffic K}
    (h : Reaches (Traffic.step c timeout) Always (Traffic.init k₀) t) :
    t.forwarded.Pairwise (· < ·) ∧
    ∀ s, (∃ rest, rest.length ≤ 1 ∧ t.fromBackend s = t.answers s ++ rest) ∧
      ((t.proxy.goroutine s).settled = true → t.answers s = t.fromBackend s) := by
  obtain ⟨hatt, -⟩ := reaches_attached h
  refine ⟨(reaches_ordered h).sorted, fun s => ⟨⟨_, ?_, reaches_relayed h s⟩, fun hg => ?_⟩⟩
  · cases t.answer s <;> simp
  · rw [reaches_relayed h s, hatt.settled s hg]
    simp

/-! ## One client, from its first datagram to its first answer -/

theorem zeroBlock_length (_ _ : Bytes) : (List.replicate 16 (0 : UInt8)).length = 16 :=
  List.length_replicate

/-- Primitives whose AEAD opens everything to a ClientHello for the host `a`. -/
def openCrypto : Crypto where
  hmac _ _ := List.replicate 32 0
  hmac_length := zeroHmac_length
  aesEncrypt _ _ := List.replicate 16 0
  aesEncrypt_length := zeroBlock_length
  gcmSeal _ _ text _ := text ++ List.replicate 16 0
  gcmSeal_length := zeroSeal_length
  gcmOpen _ _ _ _ := some helloFrame

/-- The first datagram makes the session, the second is forwarded, and one answer comes back. -/
def helloTraffic : List (Packet Unit) :=
  [.receive () shortInitial, .dial 0 [[192, 0, 2, 1]], .other (.session 0 .insert),
   .firstWrite 0 true, .receive () [1, 2], .forward true, .read 0 (some [7]),
   .other (.session 0 .touch), .write 0 true]

theorem helloTraffic_run :
    (run (Traffic.step openCrypto 300) (Traffic.init ()) helloTraffic).map
      (fun t => (t.sent.map fun w => w.datagram.id, t.toClient.map Answer.bytes,
        t.received.length)) = some ([0, 1], [[7]], 2) := by decide +kernel

theorem datagram_in_one_place_hello :
    ∃ t, run (Traffic.step openCrypto 300) (Traffic.init ()) helloTraffic = some t ∧
      ∃ q, t.slot q = some 1 ∧ ∀ q', t.slot q' = some 1 → q' = q := by
  obtain ⟨t, hrun, ht⟩ := Option.map_eq_some_iff.mp helloTraffic_run
  have hlen : 1 < t.received.length := by
    rw [(Prod.mk.inj (Prod.mk.inj ht).2).2]
    decide
  obtain ⟨q, hq, hunique, -⟩ :=
    datagram_in_one_place openCrypto 300 () (Reaches.init.of_run hrun) hlen
  exact ⟨t, hrun, q, hq, hunique⟩

theorem traffic_isolated_hello :
    ∃ t, run (Traffic.step openCrypto 300) (Traffic.init ()) helloTraffic = some t ∧
      t.sent.length = 2 ∧ ∀ w ∈ t.sent, ∃ (i : Nat) (hello : Bytes),
        t.received[i]? = some ((), hello) ∧ Dials openCrypto hello (t.backend w.session) := by
  obtain ⟨t, hrun, ht⟩ := Option.map_eq_some_iff.mp helloTraffic_run
  have hlen := congrArg List.length (Prod.mk.inj ht).1
  rw [List.length_map] at hlen
  exact ⟨t, hrun, hlen, fun w hw =>
    ((traffic_isolated openCrypto 300 () (Reaches.init.of_run hrun)).1 w hw).2⟩

theorem traffic_in_order_hello :
    ∃ t, run (Traffic.step openCrypto 300) (Traffic.init ()) helloTraffic = some t ∧
      t.toClient.map Answer.bytes = [[7]] ∧ t.forwarded.Pairwise (· < ·) := by
  obtain ⟨t, hrun, ht⟩ := Option.map_eq_some_iff.mp helloTraffic_run
  exact ⟨t, hrun, (Prod.mk.inj (Prod.mk.inj ht).2).1,
    (traffic_in_order openCrypto 300 () (Reaches.init.of_run hrun)).1⟩

end ProxyGateway.Quic.Sessions
