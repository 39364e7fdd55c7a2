/-
# ProxyGateway.Smart.Updates — edits of `rules.conf` by several processes

Every edit commits under one `flock`.  `proxy_domain` takes the lock and then reads the file, but an
edit of the bot is made of two processes: the bot reads `rules.conf` and works out the whole new text
BEFORE it starts `--set-rules`, and only that takes the lock.  Whatever is committed in between is
overwritten.

The machine has any number of processes, one edit each.  `Event` says which process moves and how the
commands it runs turn out; a commit is followed by the reload of the router, and by a rollback when
that fails.  The invariant `Serial` is that `rules.conf`, apart from a commit that can still be rolled
back, is what the finished edits give one after the other.  It is kept by every step but one: the end
of a bot's commit whose text was worked out from another file (`FreshCommit`).
-/
import ProxyGateway.Logic.Machine
import ProxyGateway.Smart.Edits

namespace ProxyGateway.Smart.Updates

open ProxyGateway.Lang ProxyGateway.Logic ProxyGateway.Smart

/-! ## Edits -/

inductive Edit where
  | addRule (line : Text)
  | setFinal (target : Text)
  | delRule (num : Int)
  | importRuleset (url target : Text) (usable : Bool)
  | proxyDomain (domain target : Text)
  deriving DecidableEq, Repr

/-- The edits that the bot makes through `--set-rules`. -/
def Edit.isBot : Edit → Bool
  | .proxyDomain .. => false
  | _ => true

/-- The text that an edit makes out of `rules.conf`, unless it refuses. -/
def Edit.apply (H : Host) : Edit → Text → Option Text
  | .addRule line, file => opAddRule line (readFile file)
  | .setFinal target, file => H.opSetFinal target (readFile file)
  | .delRule num, file => opDelRule num (readFile file)
  | .importRuleset url target usable, file => opImportRuleset url target usable (readFile file)
  | .proxyDomain domain target, file => some (proxyDomainText domain target file)

/-! ## The machine -/

/-- Where a process stands. -/
inductive Phase where
  | idle
  /-- The bot has read the file and wants this text committed. -/
  | ready (text : Text)
  /-- The process has the lock; with the bot's text, or none for `proxy_domain`. -/
  | holding (text : Option Text)
  /-- The rules are committed, the reload is under way; `old` is the snapshot. -/
  | written (old : Text)
  | done
  | failed
  /-- Ended from outside after its commit. -/
  | killed
  deriving DecidableEq, Repr

structure State (ι : Type) where
  rules : Text
  lock : Option ι
  phase : ι → Phase

inductive Event (ι : Type) where
  /-- `_read_file`, and the new text. -/
  | read (p : ι)
  /-- `acquire_smart_lock` -/
  | lock (p : ι)
  /-- `flock` gives up after 30 s. -/
  | timeout (p : ι)
  /-- The candidate is refused: by the generator, by mihomo, or as a domain or target. -/
  | reject (p : ι)
  /-- `atomic_install` of the rules. -/
  | commit (p : ι)
  /-- The reload works. -/
  | succeed (p : ι)
  /-- The reload fails, the snapshot is put back. -/
  | rollback (p : ι)
  /-- The process is ended from outside, as by the time limit of the bot. -/
  | kill (p : ι)
  deriving DecidableEq, Repr

section Machine

variable {ι : Type} [DecidableEq ι] (H : Host) (edit : ι → Edit)

def State.set (st : State ι) (p : ι) (ph : Phase) : State ι :=
  { st with phase := Function.update st.phase p ph }

/-- The process ends, and with it the lock. -/
def State.release (st : State ι) (p : ι) (ph : Phase) : State ι :=
  { st.set p ph with lock := none }

def step (st : State ι) : Event ι → Option (State ι)
  | .read p =>
    if st.phase p = .idle ∧ (edit p).isBot = true then
      match (edit p).apply H st.rules with
      | some text => some (st.set p (.ready text))
      | none => some (st.set p .failed)
    else none
  | .lock p =>
    if st.lock = none then
      match st.phase p with
      | .ready text => some { st.set p (.holding (some text)) with lock := some p }
      | .idle =>
        if (edit p).isBot then none else some { st.set p (.holding none) with lock := some p }
      | _ => none
    else none
  | .timeout p =>
    match st.phase p with
    | .ready _ => some (st.set p .failed)
    | .idle => if (edit p).isBot then none else some (st.set p .failed)
    | _ => none
  | .reject p =>
    match st.phase p with
    | .holding _ => some (st.release p .failed)
    | _ => none
  | .commit p =>
    match st.phase p with
    | .holding (some text) => some { st.set p (.written st.rules) with rules := text }
    | .holding none =>
      match (edit p).apply H st.rules with
      | some text => some { st.set p (.written st.rules) with rules := text }
      | none => none
    | _ => none
  | .succeed p =>
    match st.phase p with
    | .written _ => some (st.release p .done)
    | _ => none
  | .rollback p =>
    match st.phase p with
    | .written old => some { st.release p .failed with rules := old }
    | _ => none
  | .kill p =>
    match st.phase p with
    | .idle | .ready _ => some (st.set p .failed)
    | .holding _ => some (st.release p .failed)
    | .written _ => some (st.release p .killed)
    | _ => none

/-- Before any edit. -/
def start (init : Text) : State ι := ⟨init, none, fun _ => .idle⟩

/-! ## What must hold -/

/-- The edits one after the other, each from what the one before it left. -/
def replay (init : Text) (order : List ι) : Option Text :=
  order.foldlM (fun text p => (edit p).apply H text) init

/-- **`NoLostUpdate`** — while no commit is under way, `rules.conf` is what some edits give one after
the other: each at most once, every one that reported success, and no one that did not commit. -/
def NoLostUpdate (init : Text) (st : State ι) : Prop :=
  (∀ p old, st.phase p ≠ .written old) →
    ∃ order : List ι, order.Nodup ∧ (∀ p, st.phase p = .done → p ∈ order) ∧
      (∀ p ∈ order, st.phase p = .done ∨ st.phase p = .killed) ∧
      replay H edit init order = some st.rules

/-- **`FreshCommit`** — a text that the bot has committed for good is what its edit makes of the
rules it replaced. -/
def FreshCommit (st : State ι) : Event ι → Bool
  | .succeed p | .kill p =>
    match st.phase p with
    | .written old => !(edit p).isBot || (edit p).apply H old = some st.rules
    | _ => true
  | _ => true

end Machine

/-! ## The invariant -/

/-- The process has the lock. -/
def Phase.hasLock : Phase → Bool
  | .holding _ => true
  | .written _ => true
  | _ => false

/-- The process works with a text that it got ready without the lock. -/
def Phase.prepared : Phase → Bool
  | .ready _ => true
  | .holding (some _) => true
  | _ => false

/-- The process has committed for good. -/
def Phase.committed : Phase → Bool
  | .done => true
  | .killed => true
  | _ => false

section Invariant

variable {ι : Type} [DecidableEq ι] (H : Host) (edit : ι → Edit) (init : Text)

/-- `base` is what the edits committed for good give one after the other. -/
def Serial (st : State ι) (base : Text) : Prop :=
  ∃ order : List ι, order.Nodup ∧ (∀ p, st.phase p = .done → p ∈ order) ∧
    (∀ p ∈ order, (st.phase p).committed = true) ∧ replay H edit init order = some base

structure Inv (st : State ι) : Prop where
  owner : ∀ p, (st.phase p).hasLock = true → st.lock = some p
  bot : ∀ p, (st.phase p).prepared = true → (edit p).isBot = true
  writing : ∀ p old, st.phase p = .written old →
    ((edit p).isBot = false → (edit p).apply H old = some st.rules) ∧ Serial H edit init st old
  quiet : (∀ p old, st.phase p ≠ .written old) → Serial H edit init st st.rules

variable {H edit init}

omit [DecidableEq ι] in
theorem Inv.noLostUpdate {st : State ι} (h : Inv H edit init st) :
    NoLostUpdate H edit init st := by
  intro hquiet
  obtain ⟨order, hnodup, hdone, hcommitted, hreplay⟩ := h.quiet hquiet
  refine ⟨order, hnodup, hdone, fun p hp => ?_, hreplay⟩
  have hc := hcommitted p hp
  cases hph : st.phase p <;> simp_all [Phase.committed]

omit [DecidableEq ι] in
theorem inv_start : Inv H edit init (start init : State ι) where
  owner _ h := nomatch h
  bot _ h := nomatch h
  writing _ _ h := nomatch h
  quiet _ := ⟨[], List.nodup_nil, (fun _ h => nomatch h), nofun, rfl⟩

omit [DecidableEq ι] in
theorem Inv.unique {st : State ι} (h : Inv H edit init st) {p q : ι}
    (hp : (st.phase p).hasLock = true) (hq : (st.phase q).hasLock = true) : q = p :=
  Option.some.inj ((h.owner q hq).symm.trans (h.owner p hp))

/-- A process that goes on without committing changes nothing in the order. -/
theorem Serial.set {st st' : State ι} {base : Text} {p : ι} {ph : Phase}
    (h : Serial H edit init st base) (hphase : st'.phase = Function.update st.phase p ph)
    (hp : (st.phase p).committed = false) (hph : ph ≠ .done) : Serial H edit init st' base := by
  obtain ⟨order, hnodup, hdone, hcommitted, hreplay⟩ := h
  refine ⟨order, hnodup, fun q hq => ?_, fun q hq => ?_, hreplay⟩
  · rw [hphase, Function.update_apply] at hq
    split at hq
    · exact absurd hq hph
    · exact hdone q hq
  · have hne : q ≠ p := by
      rintro rfl
      rw [hcommitted q hq] at hp
      nomatch hp
    rw [hphase, Function.update_of_ne hne]
    exact hcommitted q hq

/-- A process that commits for good comes last in the order. -/
theorem Serial.finish {st st' : State ι} {old new : Text} {p : ι} {ph : Phase}
    (h : Serial H edit init st old) (happly : (edit p).apply H old = some new)
    (hphase : st'.phase = Function.update st.phase p ph) (hp : (st.phase p).committed = false)
    (hph : ph.committed = true) : Serial H edit init st' new := by
  obtain ⟨order, hnodup, hdone, hcommitted, hreplay⟩ := h
  have hnot : p ∉ order := fun hin => by
    rw [hcommitted p hin] at hp
    nomatch hp
  refine ⟨order ++ [p], ?_, fun q hq => ?_, fun q hq => ?_, ?_⟩
  · refine List.nodup_append.mpr ⟨hnodup, by simp, ?_⟩
    rintro a ha b hb rfl
    exact hnot (List.mem_singleton.mp hb ▸ ha)
  · rw [hphase, Function.update_apply] at hq
    split at hq
    · next heq => simp [heq]
    · exact List.mem_append_left _ (hdone q hq)
  · rw [hphase]
    rcases List.mem_append.mp hq with hq | hq
    · have hne : q ≠ p := fun heq => hnot (by rwa [heq] at hq)
      rw [Function.update_of_ne hne]
      exact hcommitted q hq
    · rw [List.mem_singleton.mp hq, Function.update_self]
      exact hph
  · rw [replay, List.foldlM_append]
    simp only [replay] at hreplay
    simp [hreplay, happly]

/-- A process that neither commits nor ends a commit: only its phase and the lock change. -/
theorem Inv.move {st st' : State ι} {p : ι} {ph : Phase} (h : Inv H edit init st)
    (hphase : st'.phase = Function.update st.phase p ph) (hrules : st'.rules = st.rules)
    (hp : (st.phase p).committed = false) (hpw : ∀ old, st.phase p ≠ .written old)
    (hph : ph ≠ .done) (hphw : ∀ old, ph ≠ .written old)
    (hbot : ph.prepared = true → (edit p).isBot = true)
    (hself : ph.hasLock = true → st'.lock = some p)
    (hother : ∀ q, q ≠ p → (st.phase q).hasLock = true → st'.lock = some q) :
    Inv H edit init st' := by
  refine ⟨fun q hq => ?_, fun q hq => ?_, fun q old hq => ?_, fun hquiet => ?_⟩
  · rw [hphase, Function.update_apply] at hq
    split at hq
    · next heq => exact heq ▸ hself hq
    · next hne => exact hother q hne hq
  · rw [hphase, Function.update_apply] at hq
    split at hq
    · next heq => exact heq ▸ hbot hq
    · exact h.bot q hq
  · rw [hphase, Function.update_apply] at hq
    split at hq
    · exact absurd hq (hphw old)
    · obtain ⟨happly, hserial⟩ := h.writing q old hq
      exact ⟨hrules ▸ happly, hserial.set hphase hp hph⟩
  · rw [hrules]
    refine (h.quiet fun q old hq => ?_).set hphase hp hph
    by_cases heq : q = p
    · exact hpw old (heq ▸ hq)
    · exact hquiet q old (by rwa [hphase, Function.update_of_ne heq])

/-- A commit; `proxy_domain` commits what its edit makes of the rules it replaces. -/
theorem Inv.commit {st : State ι} {p : ι} {text : Text} {o : Option Text}
    (h : Inv H edit init st) (hp : st.phase p = .holding o)
    (happly : (edit p).isBot = false → (edit p).apply H st.rules = some text) :
    Inv H edit init { st.set p (.written st.rules) with rules := text } := by
  have hlock : (st.phase p).hasLock = true := by rw [hp]; rfl
  have hquiet : ∀ q old, st.phase q ≠ .written old := fun q old hq => by
    obtain rfl := h.unique hlock (by rw [hq]; rfl : (st.phase q).hasLock = true)
    nomatch hp.symm.trans hq
  have hserial := h.quiet hquiet
  have hset : ∀ st' : State ι, st'.phase = Function.update st.phase p (.written st.rules) →
      Serial H edit init st' st.rules :=
    fun st' hphase => hserial.set hphase (by rw [hp]; rfl) nofun
  refine ⟨fun q hq => ?_, fun q hq => ?_, fun q old hq => ?_, fun hnone => ?_⟩
  · simp only [State.set, Function.update_apply] at hq ⊢
    split at hq
    · next heq => exact heq ▸ h.owner p hlock
    · exact h.owner q hq
  · simp only [State.set, Function.update_apply] at hq
    split at hq
    · nomatch hq
    · exact h.bot q hq
  · simp only [State.set, Function.update_apply] at hq
    split at hq
    · next heq =>
      cases hq
      subst heq
      exact ⟨happly, hset _ rfl⟩
    · exact absurd hq (hquiet q old)
  · exact absurd (by simp [State.set]) (hnone p st.rules)

/-- The end of a commit, in one of two ways: the new rules stay, or the old ones come back. -/
theorem Inv.endCommit {st st' : State ι} {p : ι} {old : Text} {ph : Phase}
    (h : Inv H edit init st) (hp : st.phase p = .written old) (hph : ph.hasLock = false)
    (hprep : ph.prepared = false) (hphase : st'.phase = Function.update st.phase p ph)
    (hserial : Serial H edit init st' st'.rules) : Inv H edit init st' := by
  have hlock : (st.phase p).hasLock = true := by rw [hp]; rfl
  have hnone : ∀ q, (st'.phase q).hasLock = false := fun q => by
    rw [hphase, Function.update_apply]
    split
    · exact hph
    · next hne =>
      by_contra hq
      exact hne (h.unique hlock (by simpa using hq))
  refine ⟨fun q hq => ?_, fun q hq => ?_, fun q o hq => ?_, fun _ => hserial⟩
  · rw [hnone q] at hq
    nomatch hq
  · rw [hphase, Function.update_apply] at hq
    split at hq
    · rw [hprep] at hq
      nomatch hq
    · exact h.bot q hq
  · have hlocked := hnone q
    rw [hq] at hlocked
    nomatch hlocked

end Invariant

/-! ## Every fresh step keeps it -/

section Step

variable {ι : Type} [DecidableEq ι] {H : Host} {edit : ι → Edit} {init : Text}

/-- A process without the lock, and not finished, fails. -/
theorem Inv.fail {st : State ι} {p : ι} (h : Inv H edit init st)
    (hp : (st.phase p).committed = false) (hl : (st.phase p).hasLock = false) :
    Inv H edit init (st.set p .failed) := by
  refine h.move rfl rfl hp (fun old hold => ?_) nofun nofun nofun nofun
    fun q _ hq => h.owner q hq
  rw [hold] at hl
  nomatch hl

/-- A commit becomes final. -/
theorem Inv.finish {st : State ι} {p : ι} {old : Text} {ph : Phase} (h : Inv H edit init st)
    (hp : st.phase p = .written old)
    (hfresh : (edit p).isBot = false ∨ (edit p).apply H old = some st.rules)
    (hl : ph.hasLock = false) (hph : ph.committed = true) : Inv H edit init (st.release p ph) := by
  obtain ⟨hcli, hserial⟩ := h.writing p old hp
  have happly : (edit p).apply H old = some st.rules := hfresh.elim hcli id
  refine h.endCommit hp hl ?_ rfl (hserial.finish happly rfl (by rw [hp]; rfl) hph)
  cases ph <;> first | rfl | nomatch hph

/-- A process gives the lock back without having committed. -/
theorem Inv.giveUp {st : State ι} {p : ι} {o : Option Text} (h : Inv H edit init st)
    (hp : st.phase p = .holding o) : Inv H edit init (st.release p .failed) := by
  have hlock : (st.phase p).hasLock = true := by rw [hp]; rfl
  refine h.move rfl rfl (by rw [hp]; rfl) (fun old hold => ?_) nofun nofun nofun nofun
    fun q hne hq => absurd (h.unique hlock hq) hne
  nomatch hp.symm.trans hold

/-- A process gets the lock. -/
theorem Inv.take {st : State ι} {p : ι} {o : Option Text} (h : Inv H edit init st)
    (hfree : st.lock = none) (hp : (st.phase p).committed = false)
    (hbot : (Phase.holding o).prepared = true → (edit p).isBot = true) :
    Inv H edit init { st.set p (.holding o) with lock := some p } := by
  have hnone : ∀ q, (st.phase q).hasLock = false := fun q => by
    by_contra hq
    have howner := h.owner q (by simpa using hq)
    rw [hfree] at howner
    nomatch howner
  refine h.move rfl rfl hp (fun old hold => ?_) nofun nofun hbot (fun _ => rfl) fun q _ hq => ?_
  · have hno := hnone p
    rw [hold] at hno
    nomatch hno
  · rw [hnone q] at hq
    nomatch hq

theorem step_inv {st st' : State ι} {e : Event ι} (h : Inv H edit init st)
    (hfresh : FreshCommit H edit st e = true) (hstep : step H edit st e = some st') :
    Inv H edit init st' := by
  cases e with
  | read p =>
    simp only [step] at hstep
    split at hstep
    · next hidle =>
      split at hstep
      · cases hstep
        -- the bot has its text ready, and nobody's place in the order changes
        refine h.move rfl rfl (by rw [hidle.1]; rfl) (fun old hold => ?_) nofun nofun
          (fun _ => hidle.2) nofun fun q _ hq => h.owner q hq
        nomatch hidle.1.symm.trans hold
      · cases hstep
        exact h.fail (by rw [hidle.1]; rfl) (by rw [hidle.1]; rfl)
    · nomatch hstep
  | lock p =>
    simp only [step] at hstep
    split at hstep
    · next hfree =>
      split at hstep
      · -- a bot
        next text hp =>
        cases hstep
        exact h.take hfree (by rw [hp]; rfl) fun _ => h.bot p (by rw [hp]; rfl)
      · -- `proxy_domain`
        next hp =>
        split at hstep
        · nomatch hstep
        · cases hstep
          exact h.take hfree (by rw [hp]; rfl) nofun
      · nomatch hstep
    · nomatch hstep
  | timeout p =>
    simp only [step] at hstep
    split at hstep
    · next text hp =>
      cases hstep
      exact h.fail (by rw [hp]; rfl) (by rw [hp]; rfl)
    · next hp =>
      split at hstep
      · nomatch hstep
      · cases hstep
        exact h.fail (by rw [hp]; rfl) (by rw [hp]; rfl)
    · nomatch hstep
  | reject p =>
    simp only [step] at hstep
    split at hstep
    · next o hp =>
      cases hstep
      exact h.giveUp hp
    · nomatch hstep
  | commit p =>
    simp only [step] at hstep
    split at hstep
    · next text hp =>
      cases hstep
      -- a bot commits what it read before; only `proxy_domain` owes the current rules anything
      refine h.commit hp fun hcli => ?_
      rw [h.bot p (by rw [hp]; rfl)] at hcli
      nomatch hcli
    · next hp =>
      split at hstep
      · next text happly =>
        cases hstep
        exact h.commit hp fun _ => happly
      · nomatch hstep
    · nomatch hstep
  | succeed p =>
    simp only [step] at hstep
    split at hstep
    · next old hp =>
      cases hstep
      exact h.finish hp (by simpa [FreshCommit, hp] using hfresh) rfl rfl
    · nomatch hstep
  | rollback p =>
    simp only [step] at hstep
    split at hstep
    · next old hp =>
      cases hstep
      -- the snapshot is what the edits before this one gave
      exact h.endCommit hp rfl rfl rfl ((h.writing p old hp).2.set rfl (by rw [hp]; rfl) nofun)
    · nomatch hstep
  | kill p =>
    simp only [step] at hstep
    split at hstep
    · next hp =>
      cases hstep
      exact h.fail (by rw [hp]; rfl) (by rw [hp]; rfl)
    · next text hp =>
      cases hstep
      exact h.fail (by rw [hp]; rfl) (by rw [hp]; rfl)
    · next o hp =>
      cases hstep
      exact h.giveUp hp
    · next old hp =>
      cases hstep
      -- what it has committed stays, as if it had succeeded
      exact h.finish hp (by simpa [FreshCommit, hp] using hfresh) rfl rfl
    · nomatch hstep

/-- **`noLostUpdate_of_freshCommits`** — in every run in which the bot commits for good only texts
that its edits make of the rules they replace, no update is lost. -/
theorem noLostUpdate_of_freshCommits {st : State ι}
    (h : Reaches (step H edit) (fun s e => FreshCommit H edit s e = true) (start init) st) :
    NoLostUpdate H edit init st :=
  (h.invariant inv_start fun _ _ _ hinv hguard hstep => step_inv hinv hguard hstep).noLostUpdate

end Step

/-! ## Two rules added by the bot -/

/-- Two messages to the bot, each adding a rule. -/
def twoAdds (p : Bool) : Edit :=
  .addRule (if p then lit "DOMAIN,a.com,direct" else lit "DOMAIN,b.com,direct")

/-- One edit after the other. -/
def oneByOne : List (Event Bool) :=
  [.read true, .lock true, .commit true, .succeed true,
   .read false, .lock false, .commit false, .succeed false]

/-- Both read before the first one commits. -/
def readFirst : List (Event Bool) :=
  [.read true, .read false, .lock true, .commit true, .succeed true,
   .lock false, .commit false, .succeed false]

theorem noLostUpdate_oneByOne :
    ∃ st, runIf (step plainHost twoAdds) (FreshCommit plainHost twoAdds) (start []) oneByOne =
        some st ∧ st.rules = lit "DOMAIN,a.com,direct\nDOMAIN,b.com,direct\n" ∧
      NoLostUpdate plainHost twoAdds [] st := by
  have hmap : (runIf (step plainHost twoAdds) (FreshCommit plainHost twoAdds) (start [])
      oneByOne).map State.rules = some (lit "DOMAIN,a.com,direct\nDOMAIN,b.com,direct\n") := by
    decide
  obtain ⟨st, hrun, hrules⟩ := Option.map_eq_some_iff.mp hmap
  exact ⟨st, hrun, hrules, noLostUpdate_of_freshCommits (Reaches.init.of_runIf hrun)⟩

/-- Both edits report success, and the first rule is gone. -/
theorem readFirst_loses_update :
    ∃ st, Reaches (step plainHost twoAdds) Always (start []) st ∧ st.phase true = .done ∧
      st.phase false = .done ∧ st.rules = lit "DOMAIN,b.com,direct\n" ∧
      ¬ NoLostUpdate plainHost twoAdds [] st := by
  have hmap : (run (step plainHost twoAdds) (start []) readFirst).map
      (fun st => (st.phase true, st.phase false, st.rules)) =
    some (.done, .done, lit "DOMAIN,b.com,direct\n") := by decide
  obtain ⟨st, hrun, hfinal⟩ := Option.map_eq_some_iff.mp hmap
  obtain ⟨htrue, hfalse, hrules⟩ : st.phase true = .done ∧ st.phase false = .done ∧
    st.rules = lit "DOMAIN,b.com,direct\n" := by simpa using hfinal
  refine ⟨st, Reaches.init.of_run hrun, htrue, hfalse, hrules, fun hno => ?_⟩
  have hquiet : ∀ p old, st.phase p ≠ .written old := by
    rintro (_ | _) old <;> simp [htrue, hfalse]
  obtain ⟨order, hnodup, hdone, -, hreplay⟩ := hno hquiet
  rw [hrules] at hreplay
  have ht := hdone true htrue
  have hf := hdone false hfalse
  -- the two possible orders
  rcases order with _ | ⟨a, _ | ⟨b, _ | ⟨c, rest⟩⟩⟩
  · nomatch ht
  · cases a <;> simp at ht hf
  · cases a <;> cases b
    · simp at ht
    · exact absurd hreplay (by decide)
    · exact absurd hreplay (by decide)
    · simp at hf
  · cases a <;> cases b <;> cases c <;> simp at hnodup

end ProxyGateway.Smart.Updates
