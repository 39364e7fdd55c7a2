/-
# ProxyGateway.Quic.Ownership — who holds a backend connection

`handleNewSession` dials outside the lock, inserts under it, and closes its connection again when it
lost a race; `removeSession` deletes under the lock and closes outside it.  Between these actions a
connection is held by one goroutine or by one entry of the map: `Holder` names the places, and
`State.slot` says what each of them holds.  Every step moves at most one connection
(`step_owned`), so in every reachable state no open connection is lost and none has two owners.
-/
import ProxyGateway.Logic.Ownership
import ProxyGateway.Quic.Sessions

namespace ProxyGateway.Quic.Sessions

open ProxyGateway.Logic

variable {K : Type}

/-- The places that hold a backend connection. -/
inductive Holder (K : Type) where
  /-- the entry of a client in `m.sessions` -/
  | entry (k : K)
  /-- a `handleNewSession` that has neither inserted nor closed what it dialled -/
  | handler (s : SessionId)
  /-- a goroutine inside `removeSession`, between the delete and `Close` -/
  | remover (s : SessionId)
  /-- `gcLoop` at the same place -/
  | collector
  deriving DecidableEq, Repr

/-- The connection that the handler of session `s` has dialled and not yet given away. -/
def Goroutine.own (s : SessionId) : Goroutine → Option SessionId
  | .dialled | .lost _ => some s
  | _ => none

/-- The session that a goroutine has deleted and not yet closed. -/
def Goroutine.victim : Goroutine → Option SessionId
  | .closing v => some v
  | _ => none

def Gc.victim : Gc K → Option SessionId
  | .closing v _ => some v
  | _ => none

theorem touch_closed (st : State K) (s t : SessionId) :
    ((st.touch s).session t).closed = (st.session t).closed := by
  by_cases hts : t = s
  · subst hts
    simp [State.touch, Session.touch]
  · simp [State.touch, hts]

theorem closeConn_closed (st : State K) (s t : SessionId) :
    ((st.closeConn s).session t).closed = (st.session t).closed + if t = s then 1 else 0 := by
  by_cases hts : t = s
  · subst hts
    simp [State.closeConn, Session.close]
  · simp [State.closeConn, hts]

/-- Dialled and not yet closed. -/
def State.live (st : State K) (s : SessionId) : Prop := s < st.next ∧ (st.session s).closed = 0

theorem closeConn_live {st : State K} {s : SessionId} (t : SessionId) :
    (st.closeConn s).live t ↔ st.live t ∧ t ≠ s := by
  have hclosed := closeConn_closed st s t
  unfold State.live
  rw [hclosed]
  by_cases hts : t = s
  · simp [hts]
  · simp [hts, State.closeConn]

variable [DecidableEq K]

/-- What each place holds. -/
def State.slot (st : State K) : Holder K → Option SessionId
  | .entry k => st.sessions.lookup k
  | .handler s => (st.goroutine s).own s
  | .remover s => (st.goroutine s).victim
  | .collector => st.gc.victim

/-- **`Owned st`** — every open connection is in exactly one place, and none was closed twice. -/
structure Owned (st : State K) : Prop where
  exclusive : Exclusive st.slot st.live
  fresh : ∀ s, st.next ≤ s → st.goroutine s = .unborn
  closed_le : ∀ s, (st.session s).closed ≤ 1

/-! ## What a step does to the places -/

/-- A goroutine moves on. -/
theorem slot_setGoroutine (st : State K) (s : SessionId) (g : Goroutine) :
    (st.setGoroutine s g).slot =
      Function.update (Function.update st.slot (.handler s) (g.own s)) (.remover s) g.victim := by
  funext h
  cases h with
  | entry k => rfl
  | collector => rfl
  | handler t =>
    by_cases hts : t = s
    · subst hts
      simp [State.slot]
    · simp [State.slot, hts]
  | remover t =>
    by_cases hts : t = s
    · subst hts
      simp [State.slot]
    · simp [State.slot, hts]

/-- A goroutine moves on and has deleted nothing that it has not closed. -/
theorem slot_of_victim_eq (st : State K) (s : SessionId) {g : Goroutine}
    (h : g.victim = (st.goroutine s).victim) :
    (st.setGoroutine s g).slot = Function.update st.slot (.handler s) (g.own s) := by
  have hremover : g.victim = Function.update st.slot (.handler s) (g.own s) (.remover s) := h
  rw [slot_setGoroutine, hremover, Function.update_eq_self]

/-- A goroutine moves on and keeps what it has dialled. -/
theorem slot_of_own_eq (st : State K) (s : SessionId) {g : Goroutine}
    (h : g.own s = (st.goroutine s).own s) :
    (st.setGoroutine s g).slot = Function.update st.slot (.remover s) g.victim := by
  have hhandler : g.own s = st.slot (.handler s) := h
  rw [slot_setGoroutine, hhandler, Function.update_eq_self]

/-- A goroutine moves on and what it holds stays the same. -/
theorem slot_of_eq {st : State K} {s : SessionId} {g : Goroutine}
    (hown : g.own s = (st.goroutine s).own s) (hvictim : g.victim = (st.goroutine s).victim) :
    (st.setGoroutine s g).slot = st.slot := by
  have hremover : g.victim = st.slot (.remover s) := hvictim
  rw [slot_of_own_eq st s hown, hremover, Function.update_eq_self]

theorem slot_deleteKey (st : State K) (k : K) :
    (st.deleteKey k).slot = Function.update st.slot (.entry k) none := by
  funext h
  cases h with
  | entry k' =>
    by_cases hk : k' = k
    · subst hk
      simp [State.slot, State.deleteKey]
    · simp [State.slot, State.deleteKey, hk]
  | _ => rfl

theorem slot_insert (st : State K) (k : K) (s : SessionId) :
    ({ st with sessions := st.sessions.insert k s } : State K).slot =
      Function.update st.slot (.entry k) (some s) := by
  funext h
  cases h with
  | entry k' =>
    by_cases hk : k' = k
    · subst hk
      simp [State.slot]
    · simp [State.slot, hk]
  | _ => rfl

theorem slot_setGc (st : State K) (g : Gc K) :
    ({ st with gc := g } : State K).slot = Function.update st.slot .collector g.victim := by
  funext h
  cases h <;> rfl

namespace Owned

variable {st : State K} {s v : SessionId}

theorem lt_next (h : Owned st) (hg : st.goroutine s ≠ .unborn) : s < st.next := by
  by_contra hge
  exact hg (h.fresh s (Nat.le_of_not_lt hge))

theorem live_of_slot (h : Owned st) {p : Holder K} (hp : st.slot p = some s) : st.live s :=
  (h.exclusive.live_iff s).mpr ⟨p, hp⟩

/-- A step that moves no connection. -/
theorem frame (h : Owned st) {st' : State K} (hslot : st'.slot = st.slot)
    (hnext : st'.next = st.next) (hclosed : ∀ t, (st'.session t).closed = (st.session t).closed)
    (hgor : ∀ t, st.next ≤ t → st'.goroutine t = st.goroutine t) : Owned st' := by
  have hlive : st'.live = st.live := by
    funext t
    unfold State.live
    rw [hnext, hclosed]
  refine ⟨?_, fun t ht => ?_, fun t => ?_⟩
  · rw [hslot, hlive]
    exact h.exclusive
  · rw [hnext] at ht
    rw [hgor t ht]
    exact h.fresh t ht
  · rw [hclosed]
    exact h.closed_le t

theorem setGoroutine (h : Owned st) {g : Goroutine} (hg : st.goroutine s ≠ .unborn)
    (hown : g.own s = (st.goroutine s).own s) (hvictim : g.victim = (st.goroutine s).victim) :
    Owned (st.setGoroutine s g) := by
  refine h.frame (slot_of_eq hown hvictim) rfl (fun _ => rfl) fun t ht => ?_
  have hlt := h.lt_next hg
  exact Function.update_of_ne (Nat.ne_of_gt (Nat.lt_of_lt_of_le hlt ht)) _ _

theorem touch (h : Owned st) (s : SessionId) : Owned (st.touch s) :=
  h.frame (by funext p; cases p <;> rfl) rfl (touch_closed st s) fun _ _ => rfl

theorem setGc (h : Owned st) {g : Gc K} (hvictim : g.victim = st.gc.victim) :
    Owned { st with gc := g } := by
  have hcollector : g.victim = st.slot .collector := hvictim
  refine h.frame ?_ rfl (fun _ => rfl) fun _ _ => rfl
  rw [slot_setGc, hcollector, Function.update_eq_self]

/-- A step that leaves sessions and counters alone. -/
theorem of_exclusive (h : Owned st) {st' : State K} (hx : Exclusive st'.slot st.live)
    (hnext : st'.next = st.next) (hsession : st'.session = st.session)
    (hgor : ∀ t, st.next ≤ t → st'.goroutine t = st.goroutine t) : Owned st' := by
  have hlive : st'.live = st.live := by
    funext t
    unfold State.live
    rw [hnext, hsession]
  refine ⟨by rw [hlive]; exact hx, fun t ht => ?_, fun t => ?_⟩
  · rw [hnext] at ht
    rw [hgor t ht]
    exact h.fresh t ht
  · rw [hsession]
    exact h.closed_le t

/-- A step that closes the connection of `v`, which some place held and holds no longer. -/
theorem close (h : Owned st) {st' : State K} {p : Holder K} (hv : st.slot p = some v)
    (hslot : st'.slot = Function.update st.slot p none) (hnext : st'.next = st.next)
    (hsession : st'.session = (st.closeConn v).session)
    (hgor : ∀ t, st.next ≤ t → st'.goroutine t = st.goroutine t) : Owned st' := by
  have hlive : ∀ t, st'.live t ↔ st.live t ∧ t ≠ v := by
    intro t
    rw [← closeConn_live]
    unfold State.live
    rw [hnext, hsession]
    rfl
  refine ⟨?_, fun t ht => ?_, fun t => ?_⟩
  · rw [hslot]
    exact h.exclusive.release hv hlive
  · rw [hnext] at ht
    rw [hgor t ht]
    exact h.fresh t ht
  · -- a connection in a place has not been closed yet
    have hopen := (h.live_of_slot hv).2
    have hle := h.closed_le t
    rw [hsession, closeConn_closed]
    split
    · rename_i ht
      rw [ht, hopen]
    · omega

end Owned

/-! ## Every step -/

theorem dial_owned {st : State K} (h : Owned st) (k : K) (n : Nat) :
    Owned { st with
      pending := Function.update st.pending k n
      session := Function.update st.session st.next ⟨k, st.now, 0⟩
      goroutine := Function.update st.goroutine st.next .dialled
      next := st.next + 1 } := by
  have hunborn := h.fresh st.next le_rfl
  have hempty : st.slot (.handler st.next) = none := by
    rw [State.slot, hunborn]
    rfl
  have hslot : ({ st with
      pending := Function.update st.pending k n
      session := Function.update st.session st.next ⟨k, st.now, 0⟩
      goroutine := Function.update st.goroutine st.next .dialled
      next := st.next + 1 } : State K).slot =
        Function.update st.slot (.handler st.next) (some st.next) :=
    slot_of_victim_eq st st.next (g := .dialled) (by rw [hunborn]; rfl)
  refine ⟨?_, fun t ht => ?_, fun t => ?_⟩
  · rw [hslot]
    refine h.exclusive.acquire hempty (fun hl => Nat.lt_irrefl _ hl.1) fun t => ?_
    by_cases hts : t = st.next
    · simp [State.live, hts]
    · simp only [State.live, Function.update_of_ne hts, or_iff_left hts, Nat.lt_succ_iff_lt_or_eq]
  · have hlt : st.next < t := ht
    show Function.update st.goroutine st.next .dialled t = .unborn
    rw [Function.update_of_ne (Nat.ne_of_gt hlt)]
    exact h.fresh t (Nat.le_of_lt hlt)
  · show (Function.update st.session st.next ⟨k, st.now, 0⟩ t).closed ≤ 1
    by_cases hts : t = st.next
    · rw [hts, Function.update_self]
      exact Nat.zero_le 1
    · rw [Function.update_of_ne hts]
      exact h.closed_le t

theorem stepMain_owned {st st' : State K} {a : MainAction K} (h : Owned st)
    (hstep : stepMain st a = some st') : Owned st' := by
  cases a with
  | receive k =>
    simp only [stepMain] at hstep
    split at hstep <;> cases hstep
    · exact h.frame (by funext p; cases p <;> rfl) rfl (fun _ => rfl) fun _ _ => rfl
    · exact h.frame (by funext p; cases p <;> rfl) rfl (fun _ => rfl) fun _ _ => rfl
  | forward =>
    simp only [stepMain] at hstep
    split at hstep <;> cases hstep
    exact (h.touch _).frame (by funext p; cases p <;> rfl) rfl (fun _ => rfl) fun _ _ => rfl
  | giveUp k =>
    simp only [stepMain] at hstep
    split at hstep <;> cases hstep
    exact h.frame (by funext p; cases p <;> rfl) rfl (fun _ => rfl) fun _ _ => rfl
  | dial k =>
    simp only [stepMain] at hstep
    split at hstep <;> cases hstep
    exact dial_owned h k _

theorem insertSession_owned {st : State K} {s : SessionId} (h : Owned st)
    (hg : st.goroutine s = .dialled) : Owned (insertSession st s) := by
  have hne : st.goroutine s ≠ .unborn := by
    rw [hg]
    nofun
  unfold insertSession
  split
  · exact h.setGoroutine hne (by rw [hg]; rfl) (by rw [hg]; rfl)
  · rename_i hnone
    -- from the handler into the map
    have hfull : st.slot (.handler s) = some s := by
      rw [State.slot, hg]
      rfl
    refine h.of_exclusive ?_ rfl rfl fun t ht => ?_
    · have hslot := slot_insert (st.setGoroutine s .inserted) (st.key s) s
      rw [slot_of_victim_eq st s (by rw [hg]; rfl)] at hslot
      exact hslot ▸ h.exclusive.move hfull hnone
    · have hlt := h.lt_next hne
      exact Function.update_of_ne (Nat.ne_of_gt (Nat.lt_of_lt_of_le hlt ht)) _ _

theorem stepSession_owned {st st' : State K} {s : SessionId} {a : SessionAction} (h : Owned st)
    (hstep : stepSession st s a = some st') : Owned st' := by
  -- a goroutine that moves was born, so no later one is touched
  have hgor : ∀ {g : Goroutine}, st.goroutine s ≠ .unborn → ∀ t, st.next ≤ t →
      Function.update st.goroutine s g t = st.goroutine t := by
    intro g hg t ht
    have hlt := h.lt_next hg
    exact Function.update_of_ne (Nat.ne_of_gt (Nat.lt_of_lt_of_le hlt ht)) _ _
  have hio : ∀ {g g' : Goroutine} (ok : Bool), st.goroutine s ≠ .unborn →
      (st.goroutine s).own s = none → (st.goroutine s).victim = none → g.own s = none →
      g'.own s = none → g.victim = none → g'.victim = none →
      Owned (st.setGoroutine s (if ok then g else g')) := by
    intro g g' ok hg hown hvictim h₁ h₂ h₃ h₄
    cases ok with
    | true => exact h.setGoroutine hg (h₁.trans hown.symm) (h₃.trans hvictim.symm)
    | false => exact h.setGoroutine hg (h₂.trans hown.symm) (h₄.trans hvictim.symm)
  cases a with
  | insert =>
    simp only [stepSession] at hstep
    split at hstep <;> cases hstep
    rename_i hg
    exact insertSession_owned h hg.1
  | closeOwn =>
    simp only [stepSession] at hstep
    split at hstep <;> cases hstep
    rename_i hg
    have hfull : st.slot (.handler s) = some s := by
      rw [State.slot, hg]
      rfl
    refine h.close hfull ?_ rfl rfl (hgor (by simp [hg]))
    exact slot_of_victim_eq (st.closeConn s) s (by
      show _ = (st.goroutine s).victim
      rw [hg]
      rfl)
  | feed =>
    simp only [stepSession] at hstep
    split at hstep <;> cases hstep
    rename_i existing hg
    have hg' : (st.touch existing).goroutine s = .feeding existing := hg
    exact (h.touch existing).setGoroutine (by simp [hg']) (by rw [hg']; rfl) (by rw [hg']; rfl)
  | firstWrite ok =>
    simp only [stepSession] at hstep
    split at hstep <;> cases hstep
    rename_i hg
    exact hio ok (by simp [hg]) (by rw [hg]; rfl) (by rw [hg]; rfl) rfl rfl rfl rfl
  | read ok =>
    simp only [stepSession] at hstep
    split at hstep <;> cases hstep
    rename_i hg
    exact hio ok (by simp [hg]) (by rw [hg]; rfl) (by rw [hg]; rfl) rfl rfl rfl rfl
  | touch =>
    simp only [stepSession] at hstep
    split at hstep <;> cases hstep
    rename_i hg
    have hg' : (st.touch s).goroutine s = .gotData := hg
    exact (h.touch s).setGoroutine (by simp [hg']) (by rw [hg']; rfl) (by rw [hg']; rfl)
  | write ok =>
    simp only [stepSession] at hstep
    split at hstep <;> cases hstep
    rename_i hg
    exact hio ok (by simp [hg]) (by rw [hg]; rfl) (by rw [hg]; rfl) rfl rfl rfl rfl
  | remove =>
    simp only [stepSession] at hstep
    split at hstep
    · rename_i hg
      split at hstep <;> cases hstep
      · rename_i victim hv
        -- from the map to the remover
        have hempty : st.slot (.remover s) = none := by
          rw [State.slot, hg.1]
          rfl
        refine h.of_exclusive ?_ rfl rfl (hgor (by simp [hg.1]))
        rw [slot_of_own_eq (st.deleteKey (st.key s)) s (by
          show _ = (st.goroutine s).own s
          rw [hg.1]
          rfl), slot_deleteKey]
        exact h.exclusive.move hv hempty
      · exact h.setGoroutine (by simp [hg.1]) (by rw [hg.1]; rfl) (by rw [hg.1]; rfl)
    · cases hstep
  | close =>
    simp only [stepSession] at hstep
    split at hstep <;> cases hstep
    rename_i victim hg
    have hfull : st.slot (.remover s) = some victim := by
      rw [State.slot, hg]
      rfl
    refine h.close hfull ?_ rfl rfl (hgor (by simp [hg]))
    exact slot_of_own_eq (st.closeConn victim) s (by
      show _ = (st.goroutine s).own s
      rw [hg]
      rfl)

theorem stepGc_owned {timeout : Int} {st st' : State K} {a : GcAction K} (h : Owned st)
    (hstep : stepGc timeout st a = some st') : Owned st' := by
  cases a with
  | tick =>
    simp only [stepGc] at hstep
    split at hstep <;> cases hstep
    rename_i hg
    exact h.setGc (by rw [hg]; rfl)
  | lock order =>
    simp only [stepGc] at hstep
    split at hstep
    · rename_i hg
      split at hstep <;> cases hstep
      exact h.setGc (by rw [hg]; rfl)
    · cases hstep
  | visit =>
    simp only [stepGc] at hstep
    split at hstep
    · rename_i hg
      split at hstep
      · split at hstep <;> cases hstep
        · exact h.setGc (by rw [hg]; rfl)
        · exact h.setGc (by rw [hg]; rfl)
      · cases hstep
        exact h.setGc (by rw [hg]; rfl)
    · rename_i hg
      cases hstep
      exact h.setGc (by rw [hg]; rfl)
    · cases hstep
  | remove =>
    simp only [stepGc] at hstep
    split at hstep
    · rename_i k keys hg
      split at hstep <;> cases hstep
      · rename_i victim hv
        -- from the map to the collector
        have hempty : st.slot .collector = none := by
          rw [State.slot, hg]
          rfl
        refine h.of_exclusive ?_ rfl rfl fun _ _ => rfl
        rw [slot_setGc, slot_deleteKey]
        exact h.exclusive.move hv hempty
      · exact h.setGc (by rw [hg]; rfl)
    · rename_i hg
      cases hstep
      exact h.setGc (by rw [hg]; rfl)
    · cases hstep
  | close =>
    simp only [stepGc] at hstep
    split at hstep <;> cases hstep
    rename_i victim keys hg
    have hfull : st.slot .collector = some victim := by
      rw [State.slot, hg]
      rfl
    refine h.close hfull ?_ rfl rfl fun _ _ => rfl
    rw [slot_setGc]
    rfl

/-- **`step_owned`** — every action of every goroutine keeps the discipline. -/
theorem step_owned {timeout : Int} {st st' : State K} {e : Event K} (h : Owned st)
    (hstep : step timeout st e = some st') : Owned st' := by
  cases e with
  | pass d =>
    cases hstep
    exact h.frame (by funext p; cases p <;> rfl) rfl (fun _ => rfl) fun _ _ => rfl
  | main a => exact stepMain_owned h hstep
  | session s a => exact stepSession_owned h hstep
  | gc a => exact stepGc_owned h hstep

theorem init_owned (k₀ : K) : Owned (init k₀) := by
  have hslot : ∀ p : Holder K, (init k₀).slot p = none := by
    intro p
    cases p <;> rfl
  refine ⟨⟨fun s => ?_, fun p p' s hp => ?_⟩, fun _ _ => rfl, fun _ => Nat.zero_le 1⟩
  · refine iff_of_false (fun hl => Nat.not_lt_zero s hl.1) ?_
    rintro ⟨p, hp⟩
    rw [hslot] at hp
    nomatch hp
  · rw [hslot] at hp
    nomatch hp

/-- Every reachable state keeps the discipline. -/
theorem reaches_owned {timeout : Int} {k₀ : K} {st : State K}
    (h : Reaches (step timeout) Always (init k₀) st) : Owned st :=
  h.invariant (init_owned k₀) fun _ _ _ hi _ hs => step_owned hi hs

/-- **`backend_owned`** — in every reachable state a client has at most one entry and an entry a
connection of its own, every open connection is in exactly one place (an entry, its handler before
insertion or close, a remover between delete and close), and none has been closed twice. -/
theorem backend_owned (timeout : Int) (k₀ : K) {st : State K}
    (h : Reaches (step timeout) Always (init k₀) st) :
    st.sessions.keys.Nodup ∧
      (∀ k k' s, st.sessions.lookup k = some s → st.sessions.lookup k' = some s → k = k') ∧
      (∀ s, s < st.next → (st.session s).closed = 0 →
        (∃ k, st.sessions.lookup k = some s) ∨
          (st.goroutine s = .dialled ∨ ∃ existing, st.goroutine s = .lost existing) ∨
          ((∃ t, st.goroutine t = .closing s) ∨ ∃ keys, st.gc = .closing s keys)) ∧
      (∀ p p' s, st.slot p = some s → st.slot p' = some s → p = p') ∧
      ∀ s, (st.session s).closed ≤ 1 := by
  have howned := reaches_owned h
  refine ⟨st.sessions.nodupKeys, fun k k' s hk hk' => ?_, fun s hs hopen => ?_,
    howned.exclusive.unique, howned.closed_le⟩
  · injection howned.exclusive.unique (.entry k) (.entry k') s hk hk'
  · obtain ⟨p, hp⟩ := (howned.exclusive.live_iff s).mp ⟨hs, hopen⟩
    cases p with
    | entry k => exact Or.inl ⟨k, hp⟩
    | handler t =>
      refine Or.inr (Or.inl ?_)
      cases hg : st.goroutine t <;> simp only [State.slot, hg, Goroutine.own] at hp <;> cases hp
      · exact Or.inl hg
      · exact Or.inr ⟨_, hg⟩
    | remover t =>
      refine Or.inr (Or.inr (Or.inl ⟨t, ?_⟩))
      cases hg : st.goroutine t <;> simp only [State.slot, hg, Goroutine.victim] at hp <;> cases hp
      rfl
    | collector =>
      refine Or.inr (Or.inr (Or.inr ?_))
      cases hg : st.gc <;> simp only [State.slot, hg, Gc.victim] at hp <;> cases hp
      exact ⟨_, rfl⟩

/-- Two datagrams of one new client whose handlers race. -/
def racingHandlers : List (Event Unit) :=
  [.main (.receive ()), .main (.receive ()), .main (.dial ()), .main (.dial ()),
   .session 0 .insert, .session 1 .insert]

/-- The loser of the race still holds its own connection, and nobody else does. -/
theorem backend_owned_by_loser :
    ∃ st : State Unit, run (step 300) (init ()) racingHandlers = some st ∧
      st.slot (.handler 1) = some 1 ∧ ∀ p, st.slot p = some 1 → p = .handler 1 := by
  obtain ⟨st, hrun, hslot⟩ : ∃ st, run (step 300) (init ()) racingHandlers = some st ∧
      st.slot (.handler 1) = some 1 := ⟨_, rfl, rfl⟩
  have howned := backend_owned 300 () (Reaches.init.of_run hrun)
  exact ⟨st, hrun, hslot, fun p hp => howned.2.2.2.1 p (.handler 1) 1 hp hslot⟩

end ProxyGateway.Quic.Sessions
