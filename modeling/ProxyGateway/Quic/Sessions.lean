/-
# ProxyGateway.Quic.Sessions — the session table of the QUIC proxy under every interleaving

The proxy's goroutines share `m.sessions`, a map from client address to session: the main loop looks
sessions up, `handleNewSession` dials and inserts, one relay per session copies the backend's answers
and removes the session when a read or write fails, and `gcLoop` removes sessions that are idle.
`step` lets any of them move by one action; what happens under one lock is one action, the scan of
the garbage collector is one action per session because sessions are touched while it runs.

`removeSession` takes a client ADDRESS, not a session.  A relay learns that its session is gone when
its read fails, and only then calls `removeSession`: by that time another session may stand under the
same address.  `RemovesOwn` is what the proxy needs (whoever removes on behalf of `s` removes `s` or
nothing); it is kept by every step except an insertion for an address for which an earlier session
still has a goroutine at work (`QuietInsert`, `removesOwn_of_quietInserts`), and after such an
insertion it can always be broken (`loud_insert_breaks`).
-/
import ProxyGateway.Logic.Machine
import Mathlib.Data.List.AList
import Mathlib.Logic.Function.Basic

namespace ProxyGateway.Quic.Sessions

open ProxyGateway.Logic

/-! ## Data -/

/-- A session pointer, which also names the backend connection dialled for it. -/
abbrev SessionId := Nat

/-- `Session`.  `closed` counts the calls of `backendConn.Close()`. -/
structure Session (K : Type) where
  clientAddr : K
  lastActivity : Int
  closed : Nat
  deriving DecidableEq, Repr

/-- `sess.lastActivity = time.Now()`. -/
def Session.touch {K : Type} (sess : Session K) (now : Int) : Session K :=
  { sess with lastActivity := now }

/-- `sess.backendConn.Close()`. -/
def Session.close {K : Type} (sess : Session K) : Session K :=
  { sess with closed := sess.closed + 1 }

/-- Where the goroutine of one session stands: first its `handleNewSession`, then its relay. -/
inductive Goroutine where
  | unborn
  /-- dialled, `m.mu` not yet taken -/
  | dialled
  /-- found an existing session; its own connection is still open -/
  | lost (existing : SessionId)
  /-- closed its own connection; the datagram goes to the existing session -/
  | feeding (existing : SessionId)
  /-- inserted, first datagram not yet written -/
  | inserted
  /-- the relay before `backendConn.Read` -/
  | reading
  /-- the relay has data and has not yet touched the session -/
  | gotData
  /-- the relay before `WriteToUDP` -/
  | writing
  /-- called `removeSession`, `m.mu` not yet taken -/
  | removing
  /-- inside `removeSession`, between the delete and `Close` -/
  | closing (victim : SessionId)
  | done
  deriving DecidableEq, Repr

/-- The main loop: before `ReadFromUDP`, or holding the session it looked up. -/
inductive Main where
  | waiting
  | forwarding (s : SessionId)
  deriving DecidableEq, Repr

/-- `gcLoop`: waiting for the ticker, past `time.Now()`, scanning under `RLock`, removing the idle
keys one by one. -/
inductive Gc (K : Type) where
  | idle
  | ticked (now : Int)
  | scanning (now : Int) (todo keys : List K)
  | removing (keys : List K)
  | closing (victim : SessionId) (keys : List K)
  deriving DecidableEq, Repr

/-- `m.mu` is read-locked for the whole scan, so no goroutine can take it for writing. -/
def Gc.readLocked {K : Type} : Gc K → Bool
  | .scanning .. => true
  | _ => false

/-- The shared state and the position of every goroutine. -/
structure State (K : Type) where
  sessions : AList fun _ : K => SessionId
  session : SessionId → Session K
  goroutine : SessionId → Goroutine
  /-- sessions made so far -/
  next : SessionId
  /-- `handleNewSession` goroutines that have not dialled, by client address -/
  pending : K → Nat
  main : Main
  gc : Gc K
  now : Int

/-- Actions of the main loop, and of handlers that have not dialled yet. -/
inductive MainAction (K : Type) where
  | receive (k : K)
  | forward
  | giveUp (k : K)
  | dial (k : K)
  deriving DecidableEq, Repr

/-- Actions of the goroutine of one session.  The Boolean is the outcome of the I/O call. -/
inductive SessionAction where
  | insert
  | closeOwn
  | feed
  | firstWrite (ok : Bool)
  | read (ok : Bool)
  | touch
  | write (ok : Bool)
  | remove
  | close
  deriving DecidableEq, Repr

/-- Actions of `gcLoop`.  A map is iterated in any order. -/
inductive GcAction (K : Type) where
  | tick
  | lock (order : List K)
  | visit
  | remove
  | close
  deriving DecidableEq, Repr

/-- One action of one goroutine, or the passing of time. -/
inductive Event (K : Type) where
  | pass (d : Nat)
  | main (a : MainAction K)
  | session (s : SessionId) (a : SessionAction)
  | gc (a : GcAction K)
  deriving DecidableEq, Repr

/-! ## Updates -/

namespace State

variable {K : Type} (st : State K)

/-- The `key` under which a session's goroutine works. -/
def key (s : SessionId) : K := (st.session s).clientAddr

def setGoroutine (s : SessionId) (g : Goroutine) : State K :=
  { st with goroutine := Function.update st.goroutine s g }

def touch (s : SessionId) : State K :=
  { st with session := Function.update st.session s ((st.session s).touch st.now) }

def closeConn (s : SessionId) : State K :=
  { st with session := Function.update st.session s (st.session s).close }

/-- `delete(m.sessions, key)`. -/
def deleteKey [DecidableEq K] (k : K) : State K := { st with sessions := st.sessions.erase k }

@[simp] theorem setGoroutine_sessions (s : SessionId) (g : Goroutine) :
    (st.setGoroutine s g).sessions = st.sessions := rfl

@[simp] theorem setGoroutine_key (s : SessionId) (g : Goroutine) :
    (st.setGoroutine s g).key = st.key := rfl

@[simp] theorem setGoroutine_goroutine (s : SessionId) (g : Goroutine) :
    (st.setGoroutine s g).goroutine = Function.update st.goroutine s g := rfl

@[simp] theorem touch_sessions (s : SessionId) : (st.touch s).sessions = st.sessions := rfl

@[simp] theorem touch_key (s : SessionId) : (st.touch s).key = st.key := by
  funext t
  by_cases h : t = s
  · subst h
    simp [key, touch, Session.touch]
  · simp [key, touch, h]

@[simp] theorem closeConn_key (s : SessionId) : (st.closeConn s).key = st.key := by
  funext t
  by_cases h : t = s
  · subst h
    simp [key, closeConn, Session.close]
  · simp [key, closeConn, h]

end State

/-! ## The step function -/

section Step

variable {K : Type} [DecidableEq K]

/-- `handleNewSession` after the dial, under `m.mu`: keep the first session of a client. -/
def insertSession (st : State K) (s : SessionId) : State K :=
  match st.sessions.lookup (st.key s) with
  | some existing => st.setGoroutine s (.lost existing)
  | none =>
    { st.setGoroutine s .inserted with sessions := st.sessions.insert (st.key s) s }

def stepMain (st : State K) : MainAction K → Option (State K)
  | .receive k =>
    match st.main, st.sessions.lookup k with
    | .waiting, some s => some { st with main := .forwarding s }
    | .waiting, none => some { st with pending := Function.update st.pending k (st.pending k + 1) }
    | .forwarding _, _ => none
  | .forward =>
    match st.main with
    | .forwarding s => some { st.touch s with main := .waiting }
    | .waiting => none
  | .giveUp k =>
    if 0 < st.pending k then
      some { st with pending := Function.update st.pending k (st.pending k - 1) }
    else none
  | .dial k =>
    if 0 < st.pending k then
      some { st with
        pending := Function.update st.pending k (st.pending k - 1)
        session := Function.update st.session st.next ⟨k, st.now, 0⟩
        goroutine := Function.update st.goroutine st.next .dialled
        next := st.next + 1 }
    else none

def stepSession (st : State K) (s : SessionId) : SessionAction → Option (State K)
  | .insert =>
    if st.goroutine s = .dialled ∧ st.gc.readLocked = false then some (insertSession st s) else none
  | .closeOwn =>
    match st.goroutine s with
    | .lost existing => some ((st.closeConn s).setGoroutine s (.feeding existing))
    | _ => none
  | .feed =>
    match st.goroutine s with
    | .feeding existing => some ((st.touch existing).setGoroutine s .done)
    | _ => none
  | .firstWrite ok =>
    if st.goroutine s = .inserted then
      some (st.setGoroutine s (if ok then .reading else .removing))
    else none
  | .read ok =>
    if st.goroutine s = .reading then
      some (st.setGoroutine s (if ok then .gotData else .removing))
    else none
  | .touch =>
    if st.goroutine s = .gotData then some ((st.touch s).setGoroutine s .writing) else none
  | .write ok =>
    if st.goroutine s = .writing then
      some (st.setGoroutine s (if ok then .reading else .removing))
    else none
  | .remove =>
    if st.goroutine s = .removing ∧ st.gc.readLocked = false then
      match st.sessions.lookup (st.key s) with
      | some victim => some ((st.deleteKey (st.key s)).setGoroutine s (.closing victim))
      | none => some (st.setGoroutine s .done)
    else none
  | .close =>
    match st.goroutine s with
    | .closing victim => some ((st.closeConn victim).setGoroutine s .done)
    | _ => none

def stepGc (timeout : Int) (st : State K) : GcAction K → Option (State K)
  | .tick =>
    match st.gc with
    | .idle => some { st with gc := .ticked st.now }
    | _ => none
  | .lock order =>
    match st.gc with
    | .ticked now =>
      if order.Perm st.sessions.keys then some { st with gc := .scanning now order [] } else none
    | _ => none
  | .visit =>
    match st.gc with
    | .scanning now (k :: todo) keys =>
      match st.sessions.lookup k with
      | some s =>
        if now - (st.session s).lastActivity > timeout then
          some { st with gc := .scanning now todo (keys ++ [k]) }
        else some { st with gc := .scanning now todo keys }
      | none => some { st with gc := .scanning now todo keys }
    | .scanning _ [] keys => some { st with gc := .removing keys }
    | _ => none
  | .remove =>
    match st.gc with
    | .removing (k :: keys) =>
      match st.sessions.lookup k with
      | some victim => some { st.deleteKey k with gc := .closing victim keys }
      | none => some { st with gc := .removing keys }
    | .removing [] => some { st with gc := .idle }
    | _ => none
  | .close =>
    match st.gc with
    | .closing victim keys => some { st.closeConn victim with gc := .removing keys }
    | _ => none

/-- **`step`** — one action of any goroutine, or the passing of time. -/
def step (timeout : Int) (st : State K) : Event K → Option (State K)
  | .pass d => some { st with now := st.now + d }
  | .main a => stepMain st a
  | .session s a => stepSession st s a
  | .gc a => stepGc timeout st a

/-- The proxy when `main` enters its loop; the value of `session` below `next` is never read. -/
def init (k₀ : K) : State K where
  sessions := ∅
  session _ := ⟨k₀, 0, 0⟩
  goroutine _ := .unborn
  next := 0
  pending _ := 0
  main := .waiting
  gc := .idle
  now := 0

end Step

/-! ## What a removal may hit -/

section Removal

variable {K : Type} [DecidableEq K]

/-- The goroutine may still call `removeSession`. -/
def Goroutine.mayRemove : Goroutine → Bool
  | .inserted | .reading | .gotData | .writing | .removing => true
  | _ => false

/-- **`RemovesOwn`** — a goroutine that works for `s` and is about to delete an entry finds its own
session or none, and the session it has deleted and is about to close is its own. -/
structure RemovesOwn (st : State K) : Prop where
  deletes : ∀ s v, st.goroutine s = .removing → st.sessions.lookup (st.key s) = some v → v = s
  closes : ∀ s v, st.goroutine s = .closing v → v = s

/-- **`QuietInsert`** — a session is inserted for an address only when no other session of that
address has a goroutine that may still call `removeSession`. -/
def QuietInsert (st : State K) : Event K → Prop
  | .session s .insert => st.sessions.lookup (st.key s) = none →
      ∀ t, t ≠ s → st.key t = st.key s → (st.goroutine t).mayRemove = false
  | _ => True

/-- The inductive form: whoever may still remove sees itself or nothing under its address. -/
structure OwnEntries (st : State K) : Prop where
  entry : ∀ s v, (st.goroutine s).mayRemove = true → st.sessions.lookup (st.key s) = some v → v = s
  closes : ∀ s v, st.goroutine s = .closing v → v = s

/-- What every step other than an insertion leaves intact: entries only disappear, and nobody
starts to be able to remove. -/
structure Shrinks (st st' : State K) : Prop where
  key : ∀ s, (st'.goroutine s).mayRemove = true → st'.key s = st.key s
  entry : ∀ k v, st'.sessions.lookup k = some v → st.sessions.lookup k = some v
  mayRemove : ∀ s, (st'.goroutine s).mayRemove = true → (st.goroutine s).mayRemove = true
  closes : ∀ s v, st'.goroutine s = .closing v → st.goroutine s = .closing v ∨
    st.goroutine s = .removing ∧ st.sessions.lookup (st.key s) = some v

theorem OwnEntries.shrinks {st st' : State K} (h : OwnEntries st) (hs : Shrinks st st') :
    OwnEntries st' := by
  refine ⟨fun s v hmay hv => ?_, fun s v hc => ?_⟩
  · rw [hs.key s hmay] at hv
    exact h.entry s v (hs.mayRemove s hmay) (hs.entry _ _ hv)
  · rcases hs.closes s v hc with hc | ⟨hr, hv⟩
    · exact h.closes s v hc
    · exact h.entry s v (by rw [hr]; rfl) hv

theorem lookup_erase_some {m : AList fun _ : K => SessionId} {k k' : K} {v : SessionId}
    (h : (m.erase k).lookup k' = some v) : m.lookup k' = some v := by
  by_cases hk : k' = k
  · rw [hk, AList.lookup_erase] at h
    nomatch h
  · rwa [AList.lookup_erase_ne hk] at h

/-- A step that leaves the map alone and moves one goroutine to `g`. -/
theorem shrinks_setGoroutine {st st' : State K} {s : SessionId} {g : Goroutine}
    (hkey : st'.key = st.key) (hgor : st'.goroutine = Function.update st.goroutine s g)
    (hent : ∀ k v, st'.sessions.lookup k = some v → st.sessions.lookup k = some v)
    (hmay : g.mayRemove = true → (st.goroutine s).mayRemove = true)
    (hclose : ∀ v, g = .closing v → st.goroutine s = .removing ∧
      st.sessions.lookup (st.key s) = some v) : Shrinks st st' := by
  refine ⟨fun t _ => by rw [hkey], hent, fun t ht => ?_, fun t v ht => ?_⟩
  · rw [hgor] at ht
    by_cases hts : t = s
    · subst hts
      exact hmay (by simpa using ht)
    · simpa [hts] using ht
  · rw [hgor] at ht
    by_cases hts : t = s
    · subst hts
      exact Or.inr (hclose v (by simpa using ht))
    · exact Or.inl (by simpa [hts] using ht)

/-- A step that moves no goroutine of a session. -/
theorem shrinks_of_goroutine_eq {st st' : State K} (hkey : st'.key = st.key)
    (hgor : st'.goroutine = st.goroutine)
    (hent : ∀ k v, st'.sessions.lookup k = some v → st.sessions.lookup k = some v) :
    Shrinks st st' := by
  refine ⟨fun t _ => by rw [hkey], hent, fun t ht => ?_, fun t v ht => Or.inl ?_⟩
  · rwa [hgor] at ht
  · rwa [hgor] at ht

theorem stepMain_shrinks {st st' : State K} {a : MainAction K} (h : stepMain st a = some st') :
    Shrinks st st' := by
  cases a with
  | receive k =>
    simp only [stepMain] at h
    split at h <;> cases h
    · exact shrinks_of_goroutine_eq rfl rfl fun _ _ => id
    · exact shrinks_of_goroutine_eq rfl rfl fun _ _ => id
  | forward =>
    simp only [stepMain] at h
    split at h <;> cases h
    exact shrinks_of_goroutine_eq (st.touch_key _) rfl fun _ _ => id
  | giveUp k =>
    simp only [stepMain] at h
    split at h <;> cases h
    exact shrinks_of_goroutine_eq rfl rfl fun _ _ => id
  | dial k =>
    simp only [stepMain] at h
    split at h <;> cases h
    -- the new session's address is set here, but its goroutine cannot remove yet
    refine ⟨fun t ht => ?_, fun _ _ => id, fun t ht => ?_, fun t v ht => Or.inl ?_⟩
    all_goals
      have hne : t ≠ st.next := by
        rintro rfl
        simp [Goroutine.mayRemove] at ht
      simp only [Function.update_of_ne hne] at ht
    · simp [State.key, hne]
    · exact ht
    · exact ht

theorem stepGc_shrinks {timeout : Int} {st st' : State K} {a : GcAction K}
    (h : stepGc timeout st a = some st') : Shrinks st st' := by
  cases a with
  | tick =>
    simp only [stepGc] at h
    split at h <;> cases h
    exact shrinks_of_goroutine_eq rfl rfl fun _ _ => id
  | lock order =>
    simp only [stepGc] at h
    split at h
    · split at h <;> cases h
      exact shrinks_of_goroutine_eq rfl rfl fun _ _ => id
    · nomatch h
  | visit =>
    simp only [stepGc] at h
    split at h
    · split at h
      · split at h <;> cases h
        · exact shrinks_of_goroutine_eq rfl rfl fun _ _ => id
        · exact shrinks_of_goroutine_eq rfl rfl fun _ _ => id
      · cases h
        exact shrinks_of_goroutine_eq rfl rfl fun _ _ => id
    · cases h
      exact shrinks_of_goroutine_eq rfl rfl fun _ _ => id
    · nomatch h
  | remove =>
    simp only [stepGc] at h
    split at h
    · split at h <;> cases h
      · exact shrinks_of_goroutine_eq rfl rfl fun _ _ => lookup_erase_some
      · exact shrinks_of_goroutine_eq rfl rfl fun _ _ => id
    · cases h
      exact shrinks_of_goroutine_eq rfl rfl fun _ _ => id
    · nomatch h
  | close =>
    simp only [stepGc] at h
    split at h <;> cases h
    exact shrinks_of_goroutine_eq (st.closeConn_key _) rfl fun _ _ => id

/-- An I/O call sends a goroutine that could remove to one of two positions inside the loop. -/
theorem shrinks_io {st : State K} {s : SessionId} {g g' : Goroutine} (ok : Bool)
    (hmay : (st.goroutine s).mayRemove = true) (hg : ∀ v, g ≠ .closing v)
    (hg' : ∀ v, g' ≠ .closing v) : Shrinks st (st.setGoroutine s (if ok then g else g')) := by
  refine shrinks_setGoroutine rfl rfl (fun _ _ => id) (fun _ => hmay) fun v hv => ?_
  cases ok with
  | true => exact absurd hv (hg v)
  | false => exact absurd hv (hg' v)

theorem stepSession_shrinks {st st' : State K} {s : SessionId} {a : SessionAction}
    (hins : a ≠ .insert) (h : stepSession st s a = some st') : Shrinks st st' := by
  cases a with
  | insert => exact absurd rfl hins
  | closeOwn =>
    simp only [stepSession] at h
    split at h <;> cases h
    exact shrinks_setGoroutine (by simp) rfl (fun _ _ => id) nofun nofun
  | feed =>
    simp only [stepSession] at h
    split at h <;> cases h
    exact shrinks_setGoroutine (by simp) rfl (fun _ _ => id) nofun nofun
  | firstWrite ok =>
    simp only [stepSession] at h
    split at h <;> cases h
    rename_i hg
    exact shrinks_io ok (by rw [hg]; rfl) nofun nofun
  | read ok =>
    simp only [stepSession] at h
    split at h <;> cases h
    rename_i hg
    exact shrinks_io ok (by rw [hg]; rfl) nofun nofun
  | touch =>
    simp only [stepSession] at h
    split at h <;> cases h
    rename_i hg
    exact shrinks_setGoroutine (by simp) rfl (fun _ _ => id) (fun _ => by rw [hg]; rfl) nofun
  | write ok =>
    simp only [stepSession] at h
    split at h <;> cases h
    rename_i hg
    exact shrinks_io ok (by rw [hg]; rfl) nofun nofun
  | remove =>
    simp only [stepSession] at h
    split at h
    · rename_i hg
      split at h <;> cases h
      · rename_i hv
        -- the entry that is deleted is the session that is about to be closed
        refine shrinks_setGoroutine rfl rfl (fun _ _ => lookup_erase_some) nofun fun v hc => ?_
        cases hc
        exact ⟨hg.1, hv⟩
      · exact shrinks_setGoroutine rfl rfl (fun _ _ => id) nofun nofun
    · nomatch h
  | close =>
    simp only [stepSession] at h
    split at h <;> cases h
    exact shrinks_setGoroutine (by simp) rfl (fun _ _ => id) nofun nofun

/-- An insertion adds the one entry that its own goroutine owns. -/
theorem insertSession_ownEntries {st : State K} {s : SessionId} (h : OwnEntries st)
    (hg : st.goroutine s = .dialled) (hquiet : QuietInsert st (.session s .insert)) :
    OwnEntries (insertSession st s) := by
  unfold insertSession
  split
  · refine h.shrinks (shrinks_setGoroutine rfl rfl (fun _ _ => id) nofun nofun)
  · rename_i hnone
    refine ⟨fun t v hmay hv => ?_, fun t v hc => ?_⟩
    · by_cases hts : t = s
      · -- `s` sees the entry that it has just made
        subst hts
        have hv' : (st.sessions.insert (st.key t) t).lookup (st.key t) = some v := hv
        rw [AList.lookup_insert] at hv'
        cases hv'
        rfl
      · -- and nobody else who may remove looks under this address
        have hmay' : (st.goroutine t).mayRemove = true := by simpa [hts] using hmay
        have hkey : st.key t ≠ st.key s := fun heq => by
          rw [hquiet hnone t hts heq] at hmay'
          nomatch hmay'
        have hv' : (st.sessions.insert (st.key s) s).lookup (st.key t) = some v := hv
        rw [AList.lookup_insert_ne hkey] at hv'
        exact h.entry t v hmay' hv'
    · by_cases hts : t = s
      · subst hts
        simp at hc
      · exact h.closes t v (by simpa [hts] using hc)

/-- One step keeps `OwnEntries`, if it is not a loud insertion. -/
theorem step_ownEntries {timeout : Int} {st st' : State K} {e : Event K} (h : OwnEntries st)
    (hquiet : QuietInsert st e) (hstep : step timeout st e = some st') : OwnEntries st' := by
  cases e with
  | pass d =>
    cases hstep
    exact h.shrinks (shrinks_of_goroutine_eq rfl rfl fun _ _ => id)
  | main a => exact h.shrinks (stepMain_shrinks hstep)
  | gc a => exact h.shrinks (stepGc_shrinks hstep)
  | session s a =>
    by_cases hins : a = .insert
    · subst hins
      simp only [step, stepSession] at hstep
      split at hstep <;> cases hstep
      rename_i hg
      exact insertSession_ownEntries h hg.1 hquiet
    · exact h.shrinks (stepSession_shrinks hins hstep)

theorem OwnEntries.removesOwn {st : State K} (h : OwnEntries st) : RemovesOwn st :=
  ⟨fun s v hr hv => h.entry s v (by rw [hr]; rfl) hv, h.closes⟩

/-- **`removesOwn_of_quietInserts`** — in every run without a loud insertion, whoever removes on
behalf of a session removes that session or nothing. -/
theorem removesOwn_of_quietInserts (timeout : Int) (k₀ : K) {st : State K}
    (h : Reaches (step timeout) QuietInsert (init k₀) st) : RemovesOwn st := by
  have hinit : OwnEntries (init k₀) :=
    ⟨nofun, nofun⟩
  exact (h.invariant hinit fun _ _ _ hi hq hs => step_ownEntries hi hq hs).removesOwn

/-- A session whose first write fails is about to remove itself. -/
theorem removesOwn_after_failed_write :
    ∃ st : State Unit, run (step 300) (init ()) [.main (.receive ()), .main (.dial ()),
      .session 0 .insert, .session 0 (.firstWrite false)] = some st ∧
      st.goroutine 0 = .removing ∧ RemovesOwn st := by
  refine ⟨_, rfl, rfl, removesOwn_of_quietInserts 300 () ?_⟩
  refine ((((Reaches.init.step (e := .main (.receive ())) ?_ rfl).step (e := .main (.dial ())) ?_
    rfl).step (e := .session 0 .insert) ?_ rfl).step (e := .session 0 (.firstWrite false)) ?_ rfl)
  · trivial
  · trivial
  · intro _ t ht _
    simp [init, ht, Goroutine.mayRemove]
  · trivial

/-- A client whose session is collected while its relay waits in `Read`, and dialled anew before
the relay wakes up. -/
def staleRelay : List (Event Unit) :=
  [.main (.receive ()), .main (.dial ()), .session 0 .insert, .session 0 (.firstWrite true),
   .pass 301, .gc .tick, .gc (.lock [()]), .gc .visit, .gc .visit, .gc .remove, .gc .close,
   .main (.receive ()), .main (.dial ()), .session 1 .insert, .session 1 (.firstWrite true),
   .session 0 (.read false)]

theorem staleRelay_removes_successor :
    ¬ ∀ st : State Unit, Reaches (step 300) Always (init ()) st → RemovesOwn st := by
  intro hclaim
  obtain ⟨st, hrun, hg, hv⟩ : ∃ st, run (step 300) (init ()) staleRelay = some st ∧
      st.goroutine 0 = .removing ∧ st.sessions.lookup (st.key 0) = some 1 :=
    ⟨_, rfl, rfl, rfl⟩
  have hown := hclaim st (Reaches.init.of_run hrun)
  exact absurd (hown.deletes 0 1 hg hv) (by decide)

/-- From every position in which a goroutine may still remove, failing I/O brings it to the point
of calling `removeSession`, with the map and the addresses as they are. -/
theorem reaches_removing (timeout : Int) {st : State K} {t : SessionId}
    (h : (st.goroutine t).mayRemove = true) :
    ∃ es st', run (step timeout) st es = some st' ∧ st'.goroutine t = .removing ∧
      st'.sessions = st.sessions ∧ st'.key = st.key := by
  cases hg : st.goroutine t with
  | inserted =>
    refine ⟨[.session t (.firstWrite false)], st.setGoroutine t .removing, ?_, by simp⟩
    simp [run, step, stepSession, hg]
  | reading =>
    refine ⟨[.session t (.read false)], st.setGoroutine t .removing, ?_, by simp⟩
    simp [run, step, stepSession, hg]
  | gotData =>
    refine ⟨[.session t .touch, .session t (.write false)],
      ((st.touch t).setGoroutine t .writing).setGoroutine t .removing, ?_, by simp⟩
    simp [run, step, stepSession, hg]
  | writing =>
    refine ⟨[.session t (.write false)], st.setGoroutine t .removing, ?_, by simp⟩
    simp [run, step, stepSession, hg]
  | removing => exact ⟨[], st, rfl, hg, rfl, rfl⟩
  | _ =>
    rw [hg] at h
    cases h

/-- **`loud_insert_breaks`** — the guard is not stronger than it has to be: after any loud insertion
the older goroutine can come to remove the new session. -/
theorem loud_insert_breaks {timeout : Int} {st : State K} {s : SessionId}
    (hg : st.goroutine s = .dialled) (hlock : st.gc.readLocked = false)
    (hloud : ¬ QuietInsert st (.session s .insert)) :
    ∃ es st', run (step timeout) st (.session s .insert :: es) = some st' ∧ ¬ RemovesOwn st' := by
  simp only [QuietInsert, not_forall, Bool.not_eq_false] at hloud
  obtain ⟨hnone, t, hts, hkey, hmay⟩ := hloud
  have hmay' : ((insertSession st s).goroutine t).mayRemove = true := by
    simpa [insertSession, hnone, hts] using hmay
  obtain ⟨es, st', hrun, hrem, hsess, hkeys⟩ := reaches_removing timeout hmay'
  refine ⟨es, st', ?_, fun hown => hts (hown.deletes t s hrem ?_).symm⟩
  · rw [run, step, stepSession, if_pos ⟨hg, hlock⟩]
    exact hrun
  · have hkeyi : (insertSession st s).key t = st.key s := by
      simp only [insertSession, hnone]
      exact hkey
    rw [hsess, hkeys, hkeyi, insertSession, hnone]
    exact AList.lookup_insert _

end Removal

end ProxyGateway.Quic.Sessions
