/-
# ProxyGateway.Quic.Eviction — which sessions the garbage collector may delete

`gcLoop` measures every session under `RLock` and keeps the keys of those that were idle for too
long; the deletions follow one by one, each under a lock of its own.  Nothing holds a key still in
between: a packet may refresh the session that was measured, and after the removal by its relay a
new session may stand under the key.

`EvictsIdle` is what a deletion should hit.  It is kept by every step that leaves the collected keys
alone (`LeavesCollected`): `Measured` is the invariant, one lemma for the steps of the collector and
one for all others.  A step that does not leave them alone can always be followed by the deletion of
a session in use (`disturbed_breaks`), because the collector only has to run on.
-/
import ProxyGateway.Quic.Ownership

namespace ProxyGateway.Quic.Sessions

open ProxyGateway.Logic

variable {K : Type}

theorem touch_lastActivity_of_ne (st : State K) {s t : SessionId} (h : some s ≠ some t) :
    ((st.touch s).session t).lastActivity = (st.session t).lastActivity := by
  have hts : t ≠ s := fun heq => h (by rw [heq])
  simp [State.touch, hts]

theorem closeConn_lastActivity (st : State K) (s t : SessionId) :
    ((st.closeConn s).session t).lastActivity = (st.session t).lastActivity := by
  by_cases hts : t = s
  · subst hts
    simp [State.closeConn, Session.close]
  · simp [State.closeConn, hts]

variable [DecidableEq K]

/-! ## The property and the condition -/

/-- The keys that the collector has found idle and not yet removed. -/
def Gc.collected : Gc K → List K
  | .scanning _ _ keys => keys
  | .removing keys => keys
  | .closing _ keys => keys
  | _ => []

/-- The time that the collector has read for its scan. -/
def Gc.clock : Gc K → Option Int
  | .ticked now => some now
  | .scanning now _ _ => some now
  | _ => none

/-- **`EvictsIdle`** — a session that `removeSession`, called by `gcLoop`, takes out of the map has
been idle for longer than the timeout at that moment. -/
def EvictsIdle (timeout : Int) (st : State K) : Prop :=
  ∀ st' k s, step timeout st (.gc .remove) = some st' → st.sessions.lookup k = some s →
    st'.sessions.lookup k = none → timeout < st.now - (st.session s).lastActivity

/-- The session whose `lastActivity` an event sets to the current time. -/
def State.touched (st : State K) : Event K → Option SessionId
  | .main .forward =>
    match st.main with
    | .forwarding s => some s
    | .waiting => none
  | .session s .touch => some s
  | .session s .feed =>
    match st.goroutine s with
    | .feeding existing => some existing
    | _ => none
  | _ => none

/-- The session that an event puts into the map. -/
def State.entering (st : State K) : Event K → Option SessionId
  | .session s .insert => if st.sessions.lookup (st.key s) = none then some s else none
  | _ => none

/-- **`LeavesCollected`** — an event refreshes no session that stands under a collected key, and puts
none under such a key that was active within the timeout. -/
def LeavesCollected (timeout : Int) (st : State K) (e : Event K) : Prop :=
  (∀ s ∈ st.touched e, ∀ k ∈ st.gc.collected, st.sessions.lookup k ≠ some s) ∧
    ∀ s ∈ st.entering e, st.key s ∈ st.gc.collected →
      timeout < st.now - (st.session s).lastActivity

instance (timeout : Int) (st : State K) (e : Event K) : Decidable (LeavesCollected timeout st e) :=
  inferInstanceAs (Decidable (_ ∧ _))

/-! ## What a step outside the collector does -/

/-- What the steps of everybody else do to the collector and to the times of activity. -/
structure Spares (st st' : State K) (touched : Option SessionId) : Prop where
  gc : st'.gc = st.gc
  now : st.now ≤ st'.now
  activity : ∀ t, t < st.next → touched ≠ some t →
    (st'.session t).lastActivity = (st.session t).lastActivity

theorem stepMain_spares {st st' : State K} {a : MainAction K} (h : stepMain st a = some st') :
    Spares st st' (st.touched (.main a)) := by
  cases a with
  | receive k =>
    simp only [stepMain] at h
    split at h <;> cases h
    · exact ⟨rfl, Int.le_refl _, fun _ _ _ => rfl⟩
    · exact ⟨rfl, Int.le_refl _, fun _ _ _ => rfl⟩
  | forward =>
    simp only [stepMain] at h
    split at h <;> cases h
    rename_i s hmain
    refine ⟨rfl, Int.le_refl _, fun t _ ht => ?_⟩
    simp only [State.touched, hmain] at ht
    exact touch_lastActivity_of_ne st ht
  | giveUp k =>
    simp only [stepMain] at h
    split at h <;> cases h
    exact ⟨rfl, Int.le_refl _, fun _ _ _ => rfl⟩
  | dial k =>
    simp only [stepMain] at h
    split at h <;> cases h
    refine ⟨rfl, Int.le_refl _, fun t ht _ => ?_⟩
    -- the new session is not one of those that exist
    show (Function.update st.session st.next ⟨k, st.now, 0⟩ t).lastActivity = _
    rw [Function.update_of_ne (Nat.ne_of_lt ht)]

theorem insertSession_spares (st : State K) (s : SessionId) (o : Option SessionId) :
    Spares st (insertSession st s) o := by
  unfold insertSession
  split
  · exact ⟨rfl, Int.le_refl _, fun _ _ _ => rfl⟩
  · exact ⟨rfl, Int.le_refl _, fun _ _ _ => rfl⟩

theorem stepSession_spares {st st' : State K} {s : SessionId} {a : SessionAction}
    (h : stepSession st s a = some st') : Spares st st' (st.touched (.session s a)) := by
  cases a with
  | insert =>
    simp only [stepSession] at h
    split at h <;> cases h
    exact insertSession_spares st s _
  | closeOwn =>
    simp only [stepSession] at h
    split at h <;> cases h
    exact ⟨rfl, Int.le_refl _, fun t _ _ => closeConn_lastActivity st s t⟩
  | feed =>
    simp only [stepSession] at h
    split at h <;> cases h
    rename_i existing hg
    refine ⟨rfl, Int.le_refl _, fun t _ ht => ?_⟩
    simp only [State.touched, hg] at ht
    exact touch_lastActivity_of_ne st ht
  | firstWrite ok | read ok | write ok =>
    simp only [stepSession] at h
    split at h <;> cases h
    exact ⟨rfl, Int.le_refl _, fun _ _ _ => rfl⟩
  | touch =>
    simp only [stepSession] at h
    split at h <;> cases h
    exact ⟨rfl, Int.le_refl _, fun t _ ht => touch_lastActivity_of_ne st ht⟩
  | remove =>
    simp only [stepSession] at h
    split at h
    · split at h <;> cases h
      · exact ⟨rfl, Int.le_refl _, fun _ _ _ => rfl⟩
      · exact ⟨rfl, Int.le_refl _, fun _ _ _ => rfl⟩
    · cases h
  | close =>
    simp only [stepSession] at h
    split at h <;> cases h
    rename_i victim _
    exact ⟨rfl, Int.le_refl _, fun t _ _ => closeConn_lastActivity st victim t⟩

/-! ## What was measured stays idle -/

/-- **`Measured`** — the clock is not behind the time that the collector read, and whatever stands
under a collected key has been idle for longer than the timeout. -/
structure Measured (timeout : Int) (st : State K) : Prop where
  clock : ∀ now, st.gc.clock = some now → now ≤ st.now
  idle : ∀ k ∈ st.gc.collected, ∀ s, st.sessions.lookup k = some s →
    timeout < st.now - (st.session s).lastActivity

theorem init_measured (timeout : Int) (k₀ : K) : Measured timeout (init k₀) where
  clock _ h := nomatch h
  idle _ h := nomatch h

/-- A step that spares the collector and adds no entry. -/
theorem Measured.spared {timeout : Int} {st st' : State K} {touched : Option SessionId}
    (h : Measured timeout st) (howned : Owned st) (hs : Spares st st' touched)
    (hent : ∀ k v, st'.sessions.lookup k = some v → st.sessions.lookup k = some v)
    (hleaves : ∀ s ∈ touched, ∀ k ∈ st.gc.collected, st.sessions.lookup k ≠ some s) :
    Measured timeout st' := by
  have hnow := hs.now
  refine ⟨fun now hg => ?_, fun k hk s hv => ?_⟩
  · rw [hs.gc] at hg
    have hle := h.clock now hg
    omega
  · rw [hs.gc] at hk
    have hv' := hent k s hv
    have hlive := howned.live_of_slot (show st.slot (.entry k) = some s from hv')
    have hidle := h.idle k hk s hv'
    rw [hs.activity s hlive.1 fun heq => hleaves s heq k hk hv']
    omega

theorem insertSession_measured {timeout : Int} {st : State K} {s : SessionId}
    (h : Measured timeout st) (howned : Owned st)
    (hleaves : LeavesCollected timeout st (.session s .insert)) :
    Measured timeout (insertSession st s) := by
  have hspares := insertSession_spares st s none
  by_cases hfree : st.sessions.lookup (st.key s) = none
  · have hentering : st.entering (.session s .insert) = some s := if_pos hfree
    have hyoung := hleaves.2 s hentering
    refine ⟨fun now hg => ?_, fun k hk t hv => ?_⟩
    · rw [hspares.gc] at hg
      exact Int.le_trans (h.clock now hg) hspares.now
    rw [hspares.gc] at hk
    have hmap : (insertSession st s).sessions = st.sessions.insert (st.key s) s := by
      simp only [insertSession, hfree]
    rw [hmap] at hv
    by_cases hks : k = st.key s
    · -- the new session itself
      rw [hks, AList.lookup_insert] at hv
      obtain rfl : s = t := Option.some.inj hv
      rw [insertSession, hfree]
      exact hyoung (hks ▸ hk)
    · rw [AList.lookup_insert_ne hks] at hv
      have hidle := h.idle k hk t hv
      rw [insertSession, hfree]
      exact hidle
  · obtain ⟨existing, hv⟩ := Option.ne_none_iff_exists'.mp hfree
    refine h.spared howned hspares (fun k v hk => ?_) fun s hs => by cases hs
    rw [insertSession, hv] at hk
    exact hk

theorem stepGc_measured {timeout : Int} {st st' : State K} {a : GcAction K}
    (h : Measured timeout st) (hstep : stepGc timeout st a = some st') : Measured timeout st' := by
  cases a with
  | tick =>
    simp only [stepGc] at hstep
    split at hstep <;> cases hstep
    refine ⟨fun now hnow => ?_, fun k hk => by cases hk⟩
    exact Int.le_of_eq (Option.some.inj hnow).symm
  | lock order =>
    simp only [stepGc] at hstep
    split at hstep
    · rename_i now hg
      split at hstep <;> cases hstep
      refine ⟨fun now' hnow => ?_, fun k hk => by cases hk⟩
      exact h.clock now' (hg ▸ hnow)
    · cases hstep
  | visit =>
    simp only [stepGc] at hstep
    split at hstep
    · rename_i now k todo keys hg
      have hclock := h.clock
      have hidle := h.idle
      rw [hg] at hclock hidle
      split at hstep
      · rename_i s hv
        split at hstep <;> cases hstep
        · -- this session was measured idle, and no time has passed since
          rename_i hold
          refine ⟨hclock, fun k' hk' t ht => ?_⟩
          rcases List.mem_append.mp hk' with hmem | hmem
          · exact hidle k' hmem t ht
          · obtain rfl := List.mem_singleton.mp hmem
            obtain rfl : s = t := Option.some.inj (hv.symm.trans ht)
            have hle : now ≤ st.now := hclock now rfl
            show timeout < st.now - (st.session s).lastActivity
            omega
        · exact ⟨hclock, hidle⟩
      · cases hstep
        exact ⟨hclock, hidle⟩
    · rename_i now keys hg
      cases hstep
      have hidle := h.idle
      rw [hg] at hidle
      exact ⟨fun _ hnow => (by cases hnow), hidle⟩
    · cases hstep
  | remove =>
    simp only [stepGc] at hstep
    split at hstep
    · rename_i k keys hg
      have hidle := h.idle
      rw [hg] at hidle
      split at hstep <;> cases hstep
      · refine ⟨fun _ hnow => (by cases hnow), fun k' hk' t ht => ?_⟩
        exact hidle k' (List.mem_cons_of_mem k hk') t (lookup_erase_some ht)
      · refine ⟨fun _ hnow => (by cases hnow), fun k' hk' t ht => ?_⟩
        exact hidle k' (List.mem_cons_of_mem k hk') t ht
    · cases hstep
      exact ⟨fun _ hnow => (by cases hnow), fun _ hk => (by cases hk)⟩
    · cases hstep
  | close =>
    simp only [stepGc] at hstep
    split at hstep <;> cases hstep
    rename_i victim keys hg
    have hidle := h.idle
    rw [hg] at hidle
    refine ⟨fun _ hnow => (by cases hnow), fun k hk t ht => ?_⟩
    show timeout < st.now - ((st.closeConn victim).session t).lastActivity
    rw [closeConn_lastActivity]
    exact hidle k hk t ht

/-- **`step_measured`** — every step that leaves the collected keys alone keeps what was measured. -/
theorem step_measured {timeout : Int} {st st' : State K} {e : Event K} (h : Measured timeout st)
    (howned : Owned st) (hleaves : LeavesCollected timeout st e)
    (hstep : step timeout st e = some st') : Measured timeout st' := by
  cases e with
  | pass d =>
    cases hstep
    refine h.spared howned ⟨rfl, ?_, fun _ _ _ => rfl⟩ (fun _ _ => id) hleaves.1
    show st.now ≤ st.now + d
    omega
  | main a =>
    exact h.spared howned (stepMain_spares hstep) (stepMain_shrinks hstep).entry hleaves.1
  | gc a => exact stepGc_measured h hstep
  | session s a =>
    by_cases hins : a = .insert
    · subst hins
      simp only [step, stepSession] at hstep
      split at hstep <;> cases hstep
      exact insertSession_measured h howned hleaves
    · exact h.spared howned (stepSession_spares hstep) (stepSession_shrinks hins hstep).entry
        hleaves.1

/-- What the collector deletes was measured. -/
theorem Measured.evictsIdle {timeout : Int} {st : State K} (h : Measured timeout st) :
    EvictsIdle timeout st := by
  intro st' k s hstep hv hgone
  simp only [step, stepGc] at hstep
  split at hstep
  · rename_i k' keys hg
    have hidle := h.idle
    rw [hg] at hidle
    split at hstep <;> cases hstep
    · by_cases hk : k = k'
      · exact hidle k (hk ▸ List.mem_cons_self) s hv
      · have hkept : (st.sessions.erase k').lookup k = none := hgone
        rw [AList.lookup_erase_ne hk, hv] at hkept
        cases hkept
    · rw [hv] at hgone
      cases hgone
  · cases hstep
    rw [hv] at hgone
    cases hgone
  · cases hstep

theorem evictsIdle_of_reaches {timeout : Int} {k₀ : K} {st : State K}
    (h : Reaches (step timeout) (LeavesCollected timeout) (init k₀) st) :
    EvictsIdle timeout st := by
  have hboth : Owned st ∧ Measured timeout st := by
    induction h with
    | init => exact ⟨init_owned k₀, init_measured timeout k₀⟩
    | step _ hleaves hstep ih =>
      exact ⟨step_owned ih.1 hstep, step_measured ih.2 ih.1 hleaves hstep⟩
  exact hboth.2.evictsIdle

/-! ## A step that disturbs comes to a wrong deletion -/

/-- A session that was active within the timeout stands under `k`. -/
def State.Young (timeout : Int) (st : State K) (k : K) (s : SessionId) : Prop :=
  st.sessions.lookup k = some s ∧ st.now - (st.session s).lastActivity ≤ timeout

/-- The collector that removes keys comes to `k`, with nobody else moving. -/
theorem removing_comes_to {timeout : Int} {k : K} {s : SessionId} (keys : List K) :
    ∀ st : State K, st.gc = .removing keys → k ∈ keys → st.Young timeout k s →
      ∃ es st' rest, run (step timeout) st es = some st' ∧ st'.gc = .removing (k :: rest) ∧
        st'.Young timeout k s := by
  induction keys with
  | nil => exact fun _ _ hk _ => nomatch hk
  | cons k' keys ih =>
    intro st hg hk hyoung
    by_cases heq : k = k'
    · subst heq
      exact ⟨[], st, keys, rfl, hg, hyoung⟩
    · have hmem : k ∈ keys := (List.mem_cons.mp hk).resolve_left heq
      cases hv : st.sessions.lookup k' with
      | none =>
        obtain ⟨es, st', rest, hrun, hend⟩ :=
          ih { st with gc := .removing keys } rfl hmem hyoung
        refine ⟨.gc .remove :: es, st', rest, ?_, hend⟩
        simpa [run, step, stepGc, hg, hv] using hrun
      | some victim =>
        have hyoung' : ({ (st.deleteKey k').closeConn victim with
            gc := .removing keys } : State K).Young timeout k s := by
          constructor
          · show (st.sessions.erase k').lookup k = some s
            rw [AList.lookup_erase_ne heq]
            exact hyoung.1
          · show st.now - (((st.deleteKey k').closeConn victim).session s).lastActivity ≤ timeout
            rw [closeConn_lastActivity]
            exact hyoung.2
        obtain ⟨es, st', rest, hrun, hend⟩ := ih _ rfl hmem hyoung'
        refine ⟨.gc .remove :: .gc .close :: es, st', rest, ?_, hend⟩
        simpa [run, step, stepGc, hg, hv, State.closeConn, State.deleteKey] using hrun

/-- The collector that scans comes to remove what it has collected. -/
theorem scanning_comes_to {timeout : Int} {k : K} {s : SessionId} {now : Int} (todo : List K) :
    ∀ (st : State K) (keys : List K), st.gc = .scanning now todo keys → k ∈ keys →
      st.Young timeout k s →
      ∃ es st' keys', run (step timeout) st es = some st' ∧ st'.gc = .removing keys' ∧ k ∈ keys' ∧
        st'.Young timeout k s := by
  induction todo with
  | nil =>
    intro st keys hg hk hyoung
    refine ⟨[.gc .visit], { st with gc := .removing keys }, keys, ?_, rfl, hk, hyoung⟩
    simp [run, step, stepGc, hg]
  | cons k' todo ih =>
    intro st keys hg hk hyoung
    obtain ⟨keys₁, hvisit, hk₁⟩ : ∃ keys₁,
        stepGc timeout st .visit = some { st with gc := .scanning now todo keys₁ } ∧ k ∈ keys₁ := by
      simp only [stepGc, hg]
      split
      · split
        · exact ⟨_, rfl, List.mem_append_left _ hk⟩
        · exact ⟨_, rfl, hk⟩
      · exact ⟨_, rfl, hk⟩
    obtain ⟨es, st', keys', hrun, hend⟩ :=
      ih { st with gc := .scanning now todo keys₁ } keys₁ rfl hk₁ hyoung
    refine ⟨.gc .visit :: es, st', keys', ?_, hend⟩
    rw [run, step, hvisit]
    exact hrun

/-- Once a session in use stands under a collected key, the collector can go on to delete it. -/
theorem young_collected_breaks {timeout : Int} {st : State K} {k : K} {s : SessionId}
    (hk : k ∈ st.gc.collected) (hyoung : st.Young timeout k s) :
    ∃ es st', run (step timeout) st es = some st' ∧ ¬ EvictsIdle timeout st' := by
  obtain ⟨es₁, st₁, keys, hrun₁, hg₁, hk₁, hyoung₁⟩ : ∃ es st₁ keys,
      run (step timeout) st es = some st₁ ∧ st₁.gc = .removing keys ∧ k ∈ keys ∧
        st₁.Young timeout k s := by
    cases hg : st.gc with
    | idle => rw [hg] at hk; nomatch hk
    | ticked now => rw [hg] at hk; nomatch hk
    | scanning now todo keys =>
      rw [hg] at hk
      exact scanning_comes_to todo st keys hg hk hyoung
    | removing keys =>
      rw [hg] at hk
      exact ⟨[], st, keys, rfl, hg, hk, hyoung⟩
    | closing victim keys =>
      rw [hg] at hk
      refine ⟨[.gc .close], { st.closeConn victim with gc := .removing keys }, keys, ?_, rfl, hk,
        hyoung.1, ?_⟩
      · simp [run, step, stepGc, hg]
      · show st.now - ((st.closeConn victim).session s).lastActivity ≤ timeout
        rw [closeConn_lastActivity]
        exact hyoung.2
  obtain ⟨es₂, st₂, rest, hrun₂, hg₂, hv₂, hage⟩ := removing_comes_to keys st₁ hg₁ hk₁ hyoung₁
  refine ⟨es₁ ++ es₂, st₂, ?_, fun hidle => ?_⟩
  · rw [run_append, hrun₁]
    exact hrun₂
  · have hstep : step timeout st₂ (.gc .remove) =
        some { st₂.deleteKey k with gc := .closing s rest } := by
      simp only [step, stepGc, hg₂, hv₂]
    have hlt := hidle _ k s hstep hv₂ (AList.lookup_erase k st₂.sessions)
    omega

/-- The event refreshed a session, which now is as young as can be. -/
theorem touched_lastActivity {timeout : Int} {st st' : State K} {e : Event K} {s : SessionId}
    (hstep : step timeout st e = some st') (htouched : st.touched e = some s) :
    st'.gc = st.gc ∧ st'.sessions = st.sessions ∧ st'.now = st.now ∧
      (st'.session s).lastActivity = st.now := by
  have htouch : ((st.touch s).session s).lastActivity = st.now := by
    simp [State.touch, Session.touch]
  cases e with
  | main a =>
    cases a with
    | forward =>
      simp only [step, stepMain] at hstep
      split at hstep <;> cases hstep
      rename_i hmain
      simp only [State.touched, hmain] at htouched
      obtain rfl := Option.some.inj htouched
      exact ⟨rfl, rfl, rfl, htouch⟩
    | _ => cases htouched
  | session t a =>
    cases a with
    | touch =>
      simp only [step, stepSession] at hstep
      split at hstep <;> cases hstep
      obtain rfl : t = s := Option.some.inj htouched
      exact ⟨rfl, rfl, rfl, htouch⟩
    | feed =>
      simp only [step, stepSession] at hstep
      split at hstep <;> cases hstep
      rename_i hg
      simp only [State.touched, hg] at htouched
      obtain rfl := Option.some.inj htouched
      exact ⟨rfl, rfl, rfl, htouch⟩
    | _ => cases htouched
  | pass d => cases htouched
  | gc a => cases htouched

/-- **`disturbed_breaks`** — the condition is not stronger than it has to be: after any step that
does not leave the collected keys alone the collector can come to delete a session in use. -/
theorem disturbed_breaks {timeout : Int} (htimeout : 0 ≤ timeout) {st st' : State K} {e : Event K}
    (hstep : step timeout st e = some st') (hdisturbs : ¬ LeavesCollected timeout st e) :
    ∃ es st'', run (step timeout) st' es = some st'' ∧ ¬ EvictsIdle timeout st'' := by
  obtain ⟨k, s, hk, hyoung⟩ : ∃ k s, k ∈ st'.gc.collected ∧ st'.Young timeout k s := by
    rcases not_and_or.mp hdisturbs with htouched | hentering
    · simp only [not_forall, not_not] at htouched
      obtain ⟨s, hs, k, hk, hv⟩ := htouched
      obtain ⟨hg, hsess, hnow, hact⟩ := touched_lastActivity hstep hs
      refine ⟨k, s, hg ▸ hk, hsess ▸ hv, ?_⟩
      rw [hnow, hact, Int.sub_self]
      exact htimeout
    · simp only [not_forall, Int.not_lt] at hentering
      obtain ⟨s, hs, hk, hage⟩ := hentering
      cases e with
      | session t a =>
        cases a with
        | insert =>
          simp only [State.entering] at hs
          split at hs
          · rename_i hfree
            obtain rfl : t = s := Option.some.inj hs
            simp only [step, stepSession] at hstep
            split at hstep <;> cases hstep
            simp only [insertSession, hfree]
            exact ⟨st.key t, t, hk, AList.lookup_insert _, hage⟩
          · cases hs
        | _ => cases hs
      | pass d => cases hs
      | main a => cases hs
      | gc a => cases hs
  exact young_collected_breaks hk hyoung

/-- **The garbage collector evicts only idle sessions**, in every interleaving in which the sessions
that it has measured are left alone until it deletes them; and in no other can one be sure of it. -/
theorem gc_evicts_idle (timeout : Int) (k₀ : K) :
    (∀ st, Reaches (step timeout) (LeavesCollected timeout) (init k₀) st →
      EvictsIdle timeout st) ∧
    (0 ≤ timeout → ∀ st e st', Reaches (step timeout) Always (init k₀) st →
      step timeout st e = some st' → ¬ LeavesCollected timeout st e →
        ∃ es st'', run (step timeout) st' es = some st'' ∧ ¬ EvictsIdle timeout st'') :=
  ⟨fun _ h => evictsIdle_of_reaches h,
    fun htimeout _ _ _ _ hstep hdisturbs => disturbed_breaks htimeout hstep hdisturbs⟩

/-- A session that nobody uses for 301 seconds, up to its deletion. -/
def unusedSession : List (Event Unit) :=
  [.main (.receive ()), .main (.dial ()), .session 0 .insert, .session 0 (.firstWrite true),
   .pass 301, .gc .tick, .gc (.lock [()]), .gc .visit, .gc .visit]

theorem gc_evicts_idle_unused :
    ∃ st : State Unit, Reaches (step 300) (LeavesCollected 300) (init ()) st ∧
      st.gc = .removing [()] ∧ EvictsIdle 300 st := by
  obtain ⟨st, hrun, hg⟩ : ∃ st, runIf (step 300) (fun s e => decide (LeavesCollected 300 s e))
      (init ()) unusedSession = some st ∧ st.gc = .removing [()] := ⟨_, rfl, rfl⟩
  have h : Reaches (step 300) (LeavesCollected 300) (init ()) st :=
    (Reaches.of_runIf .init hrun).mono fun _ _ => of_decide_eq_true
  exact ⟨st, h, hg, (gc_evicts_idle 300 ()).1 st h⟩

/-- The client of that session sends its next packet just before the deletion. -/
def lastMomentPacket : List (Event Unit) :=
  unusedSession ++ [.main (.receive ()), .main .forward]

theorem gc_evicts_active_session :
    ¬ ∀ st : State Unit, Reaches (step 300) Always (init ()) st → EvictsIdle 300 st := by
  intro hclaim
  obtain ⟨st, st', hrun, hstep, hv, hgone, hage⟩ : ∃ st st',
      run (step 300) (init ()) lastMomentPacket = some st ∧
        step 300 st (.gc .remove) = some st' ∧ st.sessions.lookup () = some 0 ∧
          st'.sessions.lookup () = none ∧ st.now - (st.session 0).lastActivity = 0 :=
    ⟨_, _, rfl, rfl, rfl, rfl, rfl⟩
  have hlt := hclaim st (Reaches.init.of_run hrun) st' () 0 hstep hv hgone
  omega

end ProxyGateway.Quic.Sessions
