/-
# ProxyGateway.Exits.Engines — which engines run, and from which configuration

The engine of an exit is `wg-quick` or a `mihomo` unit, by the type of the exit.  `set_exit` starts that
of the new exit and stops that of the exit before, so that one runs at a time.  Each of the three
commands leaves a gap.  `set_exit` starts an engine, and leaves it running where its device does not
appear; `exit_down` stops what the type file names, which is not what runs if `add_exit` has rewritten
it; and `add_exit` never restarts the engine whose configuration it replaces.

`OnlySelected` is what should hold after each command: every engine that runs belongs to the selected
exit, is of its type and was started from its configuration.  It is a matter of two things, which
`onlySelected_iff` separates: no engine is stale, and no engine runs for another exit.  The commands of
a run keep it exactly when each of them is `Safe` (`engines_run_iff`).  Without the engines the machine
is that of `Exits.Selection` (`exec_view`).
-/
import ProxyGateway.Exits.Selection

namespace ProxyGateway.Exits.Engines

open ProxyGateway.Lang ProxyGateway.Logic
open ProxyGateway.Exits.Selection (Linux localName wireguard engineTypes uriType Start SetAnswers
  Answers)

/-! ## The machine -/

/-- **`Host`** — where the configuration of a `mihomo` exit is.  No exit name has a slash. -/
structure Host (F : Type) extends Linux F where
  yamlPath : Text → F
  yamlPath_inj : ∀ a b, '/' ∉ a → '/' ∉ b → yamlPath a = yamlPath b → a = b
  nameChar_slash : nameChar '/' = false

inductive Kind where
  | wg | mihomo
  deriving DecidableEq, Repr

/-- The `case` of `exit_up` and `exit_down`. -/
def kindOf (t : Text) : Option Kind :=
  if t = wireguard then some .wg else if t ∈ engineTypes then some .mihomo else none

/-- The files of the exits. -/
structure Files (F C : Type) where
  types : F → Option Text
  confs : F → Option C
  yamls : F → Option C

/-- The files, the file `current-exit`, and what each engine that runs was started from. -/
structure State (F C : Type) where
  files : Files F C
  currentExit : Option Text
  engines : Kind × Text → Option C

section Commands

variable {F C : Type} (H : Host F)

/-- **`exit_type`** -/
def Files.exitType (f : Files F C) (name : Text) : Text :=
  match f.types (H.typePath name) with
  | some t => t
  | none => if (f.confs (H.confPath name)).isSome then wireguard else []

/-- **`exit_exists`** -/
def Files.exitExists (f : Files F C) (name : Text) : Bool :=
  (f.types (H.typePath name)).isSome || (f.confs (H.confPath name)).isSome

/-- The file that an engine is started from. -/
def Files.config (f : Files F C) : Kind → Text → Option C
  | .wg, name => f.confs (H.confPath name)
  | .mihomo, name => f.yamls (H.yamlPath name)

/-- What an engine finds: neither `wg-quick` nor systemd takes a name with a slash for this file. -/
def Files.found (f : Files F C) (k : Kind) (name : Text) : Option C :=
  if '/' ∈ name then none else f.config H k name

/-- `$(cat current-exit)`; a missing file reads as `local`. -/
def State.current (s : State F C) : Text :=
  match s.currentExit with
  | some t => captured t
  | none => localName

/-! ## Engines -/

/-- `wg-quick up`, or `systemctl start`, that works: what runs is left alone, and without its file an
engine does not come up. -/
def State.start (k : Kind) (name : Text) (s : State F C) : State F C :=
  if (s.engines (k, name)).isSome then s
  else { s with engines := Function.update s.engines (k, name) (s.files.found H k name) }

/-- `wg-quick down`, or `systemctl stop`, that works. -/
def State.stop (k : Kind) (name : Text) (s : State F C) : State F C :=
  { s with engines := Function.update s.engines (k, name) none }

/-- The type that the helper reads. -/
def Files.helperType (f : Files F C) (name : Text) : Text :=
  (f.types (H.typePath name)).getD wireguard

/-- **`proxy-gateway-apply-exit.sh`** as `ExecStartPost` of the unit of `unit`, which is activating and
not started once more.  `upped` is whether the engine of the selected exit comes up. -/
def execStartPost (unit : Text) (a : Answers) (s : State F C) : State F C :=
  let current := s.current
  if !a.ruled then s
  else if current = [] ∨ current = localName then s
  else if a.shown then s
  else match kindOf (s.files.helperType H current) with
    | some .wg => if a.upped then s.start H .wg current else s
    | some .mihomo => if current ≠ unit ∧ a.upped then s.start H .mihomo current else s
    | none => s

/-- `systemctl start` of the unit of a name -/
def startUnit (name : Text) (st : Start) (s : State F C) : State F C × Bool :=
  let s := if st.ok then s.start H .mihomo name else s
  match st.post with
  | some a => (execStartPost H name a s, st.ok)
  | none => (s, st.ok)

/-- **`exit_up`** -/
def exitUp (name : Text) (a : SetAnswers) (s : State F C) : State F C × Bool :=
  match kindOf (s.files.exitType H name) with
  | some .wg => if a.wg then (s.start H .wg name, true) else (s, false)
  | some .mihomo => if a.mihomo then startUnit H name a.start s else (s, false)
  | none => (s, false)

/-- **`exit_down`** -/
def exitDown (name : Text) (downs : Bool) (s : State F C) : State F C :=
  match kindOf (s.files.exitType H name) with
  | some k => if downs then s.stop k name else s
  | none => s

/-! ## The commands -/

/-- Where the device is there already, nothing is started. -/
def bringUp (name : Text) (a : SetAnswers) (s : State F C) : State F C × Bool :=
  if a.shown then (s, true) else exitUp H name a s

/-- **`set_exit`** -/
def setExit (name : Text) (a : SetAnswers) (s : State F C) : State F C × Bool :=
  if name = [] then (s, false)
  else if !a.ruled then (s, false)
  else
    let prev := s.current
    if name = localName then
      let s := { s with currentExit := some (echo localName) }
      (if prev ≠ localName then exitDown H prev a.downs s else s, true)
    else if !s.files.exitExists H name then (s, false)
    else
      let (s, ok) := bringUp H name a s
      if ok && H.deviceUp name a.up && a.replaced then
        let s := { s with currentExit := some (echo name) }
        (if prev ≠ localName ∧ prev ≠ name then exitDown H prev a.downs s else s, true)
      else (s, false)

variable [DecidableEq F]

/-- `rm -f` of the files of a name. -/
def Files.remove (f : Files F C) (name : Text) : Files F C where
  types := Function.update f.types (H.typePath name) none
  confs := Function.update f.confs (H.confPath name) none
  yamls := Function.update f.yamls (H.yamlPath name) none

/-- **`del_exit`** -/
def delExit (name : Text) (a : SetAnswers) (downs : Bool) (s : State F C) : State F C × Bool :=
  if name = [] ∨ name = localName ∨ s.files.exitExists H name = false then (s, false)
  else
    let (s, ok) := if s.current = name then setExit H localName a s else (s, true)
    if ok then
      let s := exitDown H name downs s
      ({ s with files := s.files.remove H name }, true)
    else (s, false)

/-- What `add_exit` finds in its source, and the configuration that is made of it if the tools take
it.  (There is none for a WireGuard source, see `Exits.AddExit`.) -/
inductive Source (C : Type) where
  | uri (uri : Text) (yaml : Option C)
  | conf (conf : Option C)
  deriving DecidableEq, Repr

/-- The configuration and the type of a name are written. -/
def Files.put (f : Files F C) (k : Kind) (name t : Text) (c : C) : Files F C :=
  let f := { f with types := Function.update f.types (H.typePath name) (some t) }
  match k with
  | .wg => { f with confs := Function.update f.confs (H.confPath name) (some c) }
  | .mihomo => { f with yamls := Function.update f.yamls (H.yamlPath name) (some c) }

/-- **`add_exit`** -/
def addExit (name : Text) (source : Source C) (s : State F C) : State F C × Bool :=
  if !H.validName name then (s, false)
  else match source with
    | .uri u yaml =>
      match uriType u, yaml with
      | some t, some yaml => ({ s with files := s.files.put H .mihomo name t yaml }, true)
      | _, _ => (s, false)
    | .conf conf =>
      match conf with
      | some conf => ({ s with files := s.files.put H .wg name wireguard conf }, true)
      | none => (s, false)

inductive Command (C : Type) where
  | setExit (name : Text) (a : SetAnswers)
  | delExit (name : Text) (a : SetAnswers) (downs : Bool)
  | addExit (name : Text) (source : Source C)
  deriving DecidableEq, Repr

/-- A command, and whether it succeeds. -/
def exec : Command C → State F C → State F C × Bool
  | .setExit name a => setExit H name a
  | .delExit name a downs => delExit H name a downs
  | .addExit name source => addExit H name source

def step (s : State F C) (c : Command C) : Option (State F C) := some (exec H c s).1

/-- After `setup_exit_switching`, whatever exits there are: nothing runs. -/
def setup (files : Files F C) : State F C := ⟨files, some (echo localName), fun _ => none⟩

end Commands

/-! ## Stale engines, and engines of other exits -/

section Running

variable {F C : Type} {H : Host F} {s s' s'' : State F C}

/-- **`OnlySelected`** — an engine that runs is that of the selected exit, and was started from its
present configuration. -/
def OnlySelected (H : Host F) (s : State F C) : Prop :=
  ∀ k name c, s.engines (k, name) = some c →
    name = s.current ∧ kindOf (s.files.exitType H name) = some k ∧ s.files.config H k name = some c

/-- No engine is stale: it is of the type of its exit and was started from its configuration. -/
def Fresh (H : Host F) (s : State F C) : Prop :=
  ∀ k name c, s.engines (k, name) = some c →
    kindOf (s.files.exitType H name) = some k ∧ s.files.config H k name = some c

/-- An engine runs for the name. -/
def Running (s : State F C) (name : Text) : Prop := ∃ k c, s.engines (k, name) = some c

theorem onlySelected_iff :
    OnlySelected H s ↔ Fresh H s ∧ ∀ name, Running s name → name = s.current := by
  constructor
  · intro h
    refine ⟨fun k name c hrun => (h k name c hrun).2, ?_⟩
    rintro name ⟨k, c, hrun⟩
    exact (h k name c hrun).1
  · rintro ⟨hfresh, hname⟩ k name c hrun
    exact ⟨hname name ⟨k, c, hrun⟩, hfresh k name c hrun⟩

/-- The names that engines run for. -/
def Named (s : State F C) : Prop := ∀ name, Running s name → name ≠ [] ∧ name ≠ localName ∧ '/' ∉ name

theorem found_eq_some {f : Files F C} {k : Kind} {name : Text} {c : C} :
    f.found H k name = some c ↔ '/' ∉ name ∧ f.config H k name = some c := by
  unfold Files.found
  split
  · next h => simp [h]
  · next h => simp [h]

/-- **`Brings`** — from `s` to `s'` engines come up for the names in `P`, none of them stale. -/
structure Brings (H : Host F) (s s' : State F C) (P : Text → Prop) : Prop where
  files : s'.files = s.files
  currentExit : s'.currentExit = s.currentExit
  fresh : Fresh H s → Fresh H s'
  running : ∀ name, Running s' name ↔ Running s name ∨ P name

theorem Brings.refl {P : Text → Prop} (h : ∀ name, ¬ P name) : Brings H s s P :=
  ⟨rfl, rfl, id, fun name => by simp [h name]⟩

theorem Brings.trans {P Q : Text → Prop} (h : Brings H s s' P) (h' : Brings H s' s'' Q) :
    Brings H s s'' fun name => P name ∨ Q name where
  files := h'.files.trans h.files
  currentExit := h'.currentExit.trans h.currentExit
  fresh hs := h'.fresh (h.fresh hs)
  running name := by rw [h'.running, h.running, or_assoc]

theorem Brings.congr {P Q : Text → Prop} (h : Brings H s s' P) (hiff : ∀ name, P name ↔ Q name) :
    Brings H s s' Q :=
  ⟨h.files, h.currentExit, h.fresh, fun name => by rw [h.running, hiff]⟩

theorem Brings.current {P : Text → Prop} (h : Brings H s s' P) : s'.current = s.current := by
  unfold State.current
  rw [h.currentExit]

theorem engines_start (k : Kind) (name : Text) (k' : Kind) (name' : Text) (c : C) :
    (s.start H k name).engines (k', name') = some c ↔ s.engines (k', name') = some c ∨
      ((k', name') = (k, name) ∧ s.engines (k, name) = none ∧ s.files.found H k name = some c) := by
  unfold State.start
  split
  · next hsome =>
    have hne : s.engines (k, name) ≠ none := Option.isSome_iff_ne_none.mp hsome
    simp [hne]
  · next hnone =>
    have hnone : s.engines (k, name) = none := by simpa using hnone
    by_cases heq : (k', name') = (k, name)
    · rw [heq]
      simp [hnone]
    · simp [heq]

/-- What a start brings. -/
theorem start_brings {k : Kind} {name : Text}
    (hkind : ∀ c, s.files.found H k name = some c → kindOf (s.files.exitType H name) = some k) :
    Brings H s (s.start H k name) fun m => m = name ∧ (s.files.found H k name).isSome := by
  have hfiles : (s.start H k name).files = s.files := by
    unfold State.start
    split <;> rfl
  refine ⟨hfiles, ?_, ?_, ?_⟩
  · unfold State.start
    split <;> rfl
  · intro hs k' name' c hrun
    rw [hfiles]
    rcases (engines_start ..).mp hrun with hrun | ⟨heq, -, hfound⟩
    · exact hs k' name' c hrun
    · obtain ⟨rfl, rfl⟩ := Prod.mk.inj heq
      exact ⟨hkind c hfound, (found_eq_some.mp hfound).2⟩
  · intro m
    constructor
    · rintro ⟨k', c, hrun⟩
      rcases (engines_start ..).mp hrun with hrun | ⟨heq, -, hfound⟩
      · exact .inl ⟨k', c, hrun⟩
      · exact .inr ⟨(Prod.mk.inj heq).2, Option.isSome_iff_exists.mpr ⟨c, hfound⟩⟩
    · rintro (⟨k', c, hrun⟩ | ⟨rfl, hfound⟩)
      · exact ⟨k', c, (engines_start ..).mpr (.inl hrun)⟩
      · obtain ⟨c, hfound⟩ := Option.isSome_iff_exists.mp hfound
        cases hrun : s.engines (k, m) with
        | none => exact ⟨k, c, (engines_start ..).mpr (.inr ⟨rfl, hrun, hfound⟩)⟩
        | some c' => exact ⟨k, c', (engines_start ..).mpr (.inl hrun)⟩

/-- Where a file is found, the type that the helper reads is that of the exit. -/
theorem kindOf_exitType {f : Files F C} {k : Kind} {name : Text} {c : C}
    (hkind : kindOf (f.helperType H name) = some k) (hfound : f.found H k name = some c) :
    kindOf (f.exitType H name) = some k := by
  unfold Files.helperType at hkind
  unfold Files.exitType
  cases htype : f.types (H.typePath name) with
  | some t => rwa [htype] at hkind
  | none =>
    rw [htype] at hkind
    obtain rfl : Kind.wg = k := Option.some.inj hkind
    have hconf : f.confs (H.confPath name) = some c := (found_eq_some.mp hfound).2
    rw [hconf]
    rfl

/-- The helper starts the engine of the selected exit. -/
structure Revives (H : Host F) (s : State F C) (unit : Text) (a : Answers) : Prop where
  ruled : a.ruled = true
  selected : s.current ≠ [] ∧ s.current ≠ localName
  shown : a.shown = false
  upped : a.upped = true
  found : ∃ k, kindOf (s.files.helperType H s.current) = some k ∧ (k = .mihomo → s.current ≠ unit) ∧
    (s.files.found H k s.current).isSome

theorem Revives.of_same {unit : Text} {a : Answers} (h : Revives H s unit a)
    (hfiles : s'.files = s.files) (hcurrent : s'.current = s.current) : Revives H s' unit a where
  ruled := h.ruled
  selected := by
    rw [hcurrent]
    exact h.selected
  shown := h.shown
  upped := h.upped
  found := by
    rw [hfiles, hcurrent]
    exact h.found

theorem Brings.revives_iff {P : Text → Prop} (h : Brings H s s' P) (unit : Text) (a : Answers) :
    Revives H s' unit a ↔ Revives H s unit a :=
  ⟨fun hr => hr.of_same h.files.symm h.current.symm, fun hr => hr.of_same h.files h.current⟩

/-- A start of the engine of the selected exit, by the helper. -/
theorem helper_start_brings {k : Kind} (hkind : kindOf (s.files.helperType H s.current) = some k) :
    Brings H s (s.start H k s.current) fun m =>
      m = s.current ∧ (s.files.found H k s.current).isSome :=
  start_brings fun _ hfound => kindOf_exitType hkind hfound

theorem execStartPost_brings (unit : Text) (a : Answers) :
    Brings H s (execStartPost H unit a s) fun m => m = s.current ∧ Revives H s unit a := by
  unfold execStartPost
  dsimp only
  split
  · next hruled => exact .refl fun m hm => by simp [hm.2.ruled] at hruled
  split
  · next hidle => exact .refl fun m hm => hidle.elim hm.2.selected.1 hm.2.selected.2
  next hselected =>
  split
  · next hshown => exact .refl fun m hm => by simp [hm.2.shown] at hshown
  next hruled hshown =>
  rw [not_or] at hselected
  have hgo : ∀ {k : Kind}, kindOf (s.files.helperType H s.current) = some k → a.upped = true →
      (k = .mihomo → s.current ≠ unit) → ∀ m,
      (m = s.current ∧ (s.files.found H k s.current).isSome) ↔ m = s.current ∧ Revives H s unit a := by
    intro k hkind hupped hunit m
    refine and_congr_right fun _ => ⟨fun hfound => ?_, ?_⟩
    · exact ⟨by simpa using hruled, hselected, by simpa using hshown, hupped, k, hkind, hunit, hfound⟩
    · rintro ⟨-, -, -, -, k', hkind', -, hfound⟩
      obtain rfl := Option.some.inj (hkind.symm.trans hkind')
      exact hfound
  split
  · next hkind =>
    split
    · next hupped => exact (helper_start_brings hkind).congr (hgo hkind hupped nofun)
    · next hupped => exact .refl fun m hm => hupped hm.2.upped
  · next hkind =>
    split
    · next hstart =>
      exact (helper_start_brings hkind).congr (hgo hkind hstart.2 fun _ => hstart.1)
    · next hstart =>
      refine .refl fun m hm => hstart ⟨?_, hm.2.upped⟩
      obtain ⟨k, hkind', hunit, -⟩ := hm.2.found
      exact hunit (Option.some.inj (hkind'.symm.trans hkind))
  · next hkind =>
    refine .refl fun m hm => ?_
    obtain ⟨k, hkind', -⟩ := hm.2.found
    exact nomatch hkind.symm.trans hkind'

/-- `exit_up` starts the engine of the exit, and the engine finds its file. -/
structure Starts (H : Host F) (s : State F C) (name : Text) (a : SetAnswers) : Prop where
  shown : a.shown = false
  found : ∃ k, kindOf (s.files.exitType H name) = some k ∧ (s.files.found H k name).isSome ∧
    match k with
    | .wg => a.wg = true
    | .mihomo => a.mihomo = true ∧ a.start.ok = true

/-- The helper, run by the unit of the exit, starts the engine of the exit that is still selected. -/
structure Revived (H : Host F) (s : State F C) (name : Text) (a : SetAnswers) : Prop where
  shown : a.shown = false
  unit : kindOf (s.files.exitType H name) = some .mihomo ∧ a.mihomo = true
  post : ∃ h, a.start.post = some h ∧ Revives H s name h

theorem startUnit_brings {name : Text} (hkind : kindOf (s.files.exitType H name) = some .mihomo)
    (st : Start) : Brings H s (startUnit H name st s).1 fun m =>
      (m = name ∧ (s.files.found H .mihomo name).isSome ∧ st.ok = true) ∨
        (m = s.current ∧ ∃ h, st.post = some h ∧ Revives H s name h) := by
  have hstart : Brings H s (if st.ok then s.start H .mihomo name else s) fun m =>
      m = name ∧ (s.files.found H .mihomo name).isSome ∧ st.ok = true := by
    split
    · next hok => exact (start_brings fun _ _ => hkind).congr fun m => by simp [hok]
    · next hok => exact .refl fun m hm => hok hm.2.2
  unfold startUnit
  dsimp only
  split
  · next h hsome =>
    refine (hstart.trans (execStartPost_brings name h)).congr fun m => or_congr_right ?_
    rw [hstart.current, hstart.revives_iff]
    simp [hsome]
  · next hnone =>
    refine hstart.congr fun m => ?_
    simp [hnone]

/-- **`bringUp_brings`** — the engine of the exit comes up, and maybe that of the selected one. -/
theorem bringUp_brings (name : Text) (a : SetAnswers) :
    Brings H s (bringUp H name a s).1 fun m =>
      (m = name ∧ Starts H s name a) ∨ (m = s.current ∧ Revived H s name a) := by
  unfold bringUp
  split
  · next hshown =>
    refine .refl fun m hm => ?_
    rcases hm with ⟨-, hm⟩ | ⟨-, hm⟩
    · exact Bool.false_ne_true (hm.shown.symm.trans hshown)
    · exact Bool.false_ne_true (hm.shown.symm.trans hshown)
  next hshown =>
  have hshown : a.shown = false := by simpa using hshown
  -- whatever starts, it is by the kind of the exit
  have hstarts : ∀ {k : Kind}, kindOf (s.files.exitType H name) = some k →
      (Starts H s name a ↔ (s.files.found H k name).isSome ∧
        match k with
        | .wg => a.wg = true
        | .mihomo => a.mihomo = true ∧ a.start.ok = true) := by
    intro k hkind
    constructor
    · rintro ⟨-, k', hkind', h⟩
      obtain rfl := Option.some.inj (hkind.symm.trans hkind')
      exact h
    · intro h
      exact ⟨hshown, k, hkind, h⟩
  have hrevived : Revived H s name a ↔
      (kindOf (s.files.exitType H name) = some .mihomo ∧ a.mihomo = true) ∧
        ∃ h, a.start.post = some h ∧ Revives H s name h :=
    ⟨fun h => ⟨h.unit, h.post⟩, fun h => ⟨hshown, h.1, h.2⟩⟩
  unfold exitUp
  split
  · next hkind =>
    have hnot : ¬ Revived H s name a := fun h => nomatch h.unit.1.symm.trans hkind
    split
    · next hwg =>
      refine (start_brings fun _ _ => hkind).congr fun m => ?_
      rw [hstarts hkind]
      simp [hnot, hwg]
    · next hwg =>
      refine .refl fun m hm => ?_
      rw [hstarts hkind] at hm
      simp [hnot, hwg] at hm
  · next hkind =>
    split
    · next hmihomo =>
      refine (startUnit_brings hkind a.start).congr fun m => ?_
      rw [hstarts hkind, hrevived]
      simp [hkind, hmihomo]
    · next hmihomo =>
      refine .refl fun m hm => ?_
      rw [hstarts hkind, hrevived] at hm
      simp [hmihomo] at hm
  · next hkind =>
    refine .refl fun m hm => ?_
    rcases hm with ⟨-, hm⟩ | ⟨-, hm⟩
    · obtain ⟨k, hkind', -⟩ := hm.found
      exact nomatch hkind.symm.trans hkind'
    · exact nomatch hkind.symm.trans hm.unit.1

/-- Whether `set_exit` gets past the start of the engine. -/
def Files.brings (H : Host F) (f : Files F C) (name : Text) (a : SetAnswers) : Bool :=
  a.shown || match kindOf (f.exitType H name) with
    | some .wg => a.wg
    | some .mihomo => a.mihomo && a.start.ok
    | none => false

theorem bringUp_ok (name : Text) (a : SetAnswers) (s : State F C) :
    (bringUp H name a s).2 = s.files.brings H name a := by
  unfold bringUp exitUp Files.brings startUnit
  cases a.shown with
  | true => rfl
  | false =>
    rw [Bool.false_or]
    simp only [Bool.false_eq_true, if_false]
    split
    · cases a.wg <;> rfl
    · cases a.mihomo <;> cases a.start.post <;> rfl
    · rfl

/-- **`Lowers`** — from `s` to `s'` the engine of the name goes down, if `downs`. -/
structure Lowers (H : Host F) (s s' : State F C) (name : Text) (downs : Bool) : Prop where
  files : s'.files = s.files
  currentExit : s'.currentExit = s.currentExit
  fresh : Fresh H s'
  running : ∀ m, Running s' m ↔ Running s m ∧ (m = name → downs = false)

theorem engines_stop (k : Kind) (name : Text) (k' : Kind) (name' : Text) (c : C) :
    (s.stop k name).engines (k', name') = some c ↔
      s.engines (k', name') = some c ∧ (k', name') ≠ (k, name) := by
  unfold State.stop
  by_cases heq : (k', name') = (k, name)
  · rw [heq]
    simp
  · simp [heq]

/-- `exit_down` stops what runs for the name, as nothing is stale. -/
theorem exitDown_lowers (hs : Fresh H s) (name : Text) (downs : Bool) :
    Lowers H s (exitDown H name downs s) name downs := by
  unfold exitDown
  split
  · next k hkind =>
    cases downs with
    | false => exact ⟨rfl, rfl, hs, fun m => by simp⟩
    | true =>
      refine ⟨rfl, rfl, fun k' m c hrun => hs k' m c ((engines_stop ..).mp hrun).1, fun m => ?_⟩
      constructor
      · rintro ⟨k', c, hrun⟩
        obtain ⟨hbefore, hne⟩ := (engines_stop ..).mp hrun
        refine ⟨⟨k', c, hbefore⟩, fun heq => ?_⟩
        rw [← heq] at hkind hne
        obtain rfl := Option.some.inj (hkind.symm.trans (hs k' m c hbefore).1)
        exact absurd rfl hne
      · rintro ⟨⟨k', c, hrun⟩, hother⟩
        refine ⟨k', c, (engines_stop ..).mpr ⟨hrun, fun heq => ?_⟩⟩
        exact Bool.noConfusion (hother (Prod.mk.inj heq).2)
  · next hkind =>
    refine ⟨rfl, rfl, hs, fun m => ⟨fun hrun => ⟨hrun, ?_⟩, And.left⟩⟩
    rintro rfl
    obtain ⟨k, c, hrun⟩ := hrun
    exact nomatch hkind.symm.trans (hs k m c hrun).1

/-- Where nothing runs for the name, nothing is stopped. -/
theorem exitDown_idle {name : Text} (h : ¬ Running s name) (downs : Bool) :
    exitDown H name downs s = s := by
  have hnone : ∀ k, s.engines (k, name) = none := by
    intro k
    by_contra hne
    obtain ⟨c, hrun⟩ := Option.ne_none_iff_exists'.mp hne
    exact h ⟨k, c, hrun⟩
  unfold exitDown
  split
  · next k _ =>
    have hstop : s.stop k name = s := by
      unfold State.stop
      rw [Function.update_eq_self_iff.mpr (hnone k).symm]
    rw [hstop, ite_self]
  · rfl

/-! ## Selecting -/

/-- `set_exit` gets as far as writing the file. -/
def Arrives (H : Host F) (s : State F C) (name : Text) (a : SetAnswers) : Prop :=
  s.files.brings H name a = true ∧ H.deviceUp name a.up = true ∧ a.replaced = true

/-- **`SafeSet`** — `set_exit` starts no engine that it leaves behind, and stops the one from before. -/
def SafeSet (H : Host F) (s : State F C) (name : Text) (a : SetAnswers) : Prop :=
  name ≠ [] → a.ruled = true →
    (name = localName → Running s s.current → a.downs = true) ∧
    (name ≠ localName → s.files.exitExists H name = true →
      (Arrives H s name a →
        (s.current ≠ name → Running s s.current ∨ Revived H s name a → a.downs = true) ∧
        (isEchoOption name = true → ¬ Running s name ∧ ¬ Starts H s name a)) ∧
      (¬ Arrives H s name a → Starts H s name a → name = s.current))

theorem captured_echo_local : captured (echo localName) = localName :=
  (captured_echo (by decide)).trans rfl

/-- The file `current-exit` is no matter to the engines. -/
theorem fresh_select {t : Option Text} (hs : Fresh H s) : Fresh H { s with currentExit := t } := hs

/-- `set_exit local` -/
theorem setExit_local (hs : Fresh H s) {a : SetAnswers} (hruled : a.ruled = true) :
    let s' := (setExit H localName a s).1
    s'.files = s.files ∧ s'.current = localName ∧ Fresh H s' ∧ ∀ m, Running s' m ↔
      Running s m ∧ (s.current ≠ localName → m = s.current → a.downs = false) := by
  have hgo : (setExit H localName a s).1 =
      if s.current ≠ localName then
        exitDown H s.current a.downs { s with currentExit := some (echo localName) }
      else { s with currentExit := some (echo localName) } := by
    unfold setExit
    rw [if_neg (by decide), if_neg (by simp [hruled]), if_pos rfl]
  have hcurrent : ∀ {t : State F C}, t.currentExit = some (echo localName) → t.current = localName := by
    intro t ht
    rw [State.current, ht]
    exact captured_echo_local
  rw [hgo]
  dsimp only
  split
  · next hprev =>
    have hdown := exitDown_lowers (fresh_select (t := some (echo localName)) hs) s.current a.downs
    exact ⟨hdown.files, hcurrent hdown.currentExit, hdown.fresh,
      fun m => (hdown.running m).trans (and_congr_right fun _ => by simp [hprev])⟩
  · next hprev => exact ⟨rfl, hcurrent rfl, hs, fun m => by simp [hprev]; rfl⟩

/-- `set_exit` of an exit that does not come up. -/
theorem setExit_fails {name : Text} {a : SetAnswers} (hne : name ≠ []) (hruled : a.ruled = true)
    (hlocal : name ≠ localName) (hexists : s.files.exitExists H name = true)
    (hnot : ¬ Arrives H s name a) : (setExit H name a s).1 = (bringUp H name a s).1 := by
  unfold setExit
  rw [if_neg hne, if_neg (by simp [hruled]), if_neg hlocal, if_neg (by simp [hexists])]
  dsimp only
  rw [bringUp_ok, if_neg (by simpa [Arrives, and_assoc] using hnot)]

/-- `set_exit` of an exit that comes up. -/
theorem setExit_arrives (hs : Fresh H s) {name : Text} {a : SetAnswers} (hne : name ≠ [])
    (hruled : a.ruled = true) (hlocal : name ≠ localName)
    (hexists : s.files.exitExists H name = true) (harrives : Arrives H s name a) :
    let s' := (setExit H name a s).1
    s'.files = s.files ∧ s'.current = (if isEchoOption name then [] else name) ∧ Fresh H s' ∧
      ∀ m, Running s' m ↔
        (Running s m ∨ (m = name ∧ Starts H s name a) ∨ (m = s.current ∧ Revived H s name a)) ∧
          (s.current ≠ localName ∧ s.current ≠ name → m = s.current → a.downs = false) := by
  have hdevice : H.validDevice (Selection.iface name) = true := (Bool.and_eq_true_iff.mp harrives.2.1).1
  have hline : '\n' ∉ name := fun hmem =>
    H.validDevice_newline _ hdevice (List.mem_append_right _ hmem)
  have hcurrent : ∀ {t : State F C}, t.currentExit = some (echo name) →
      t.current = if isEchoOption name then [] else name := by
    intro t ht
    rw [State.current, ht]
    exact captured_echo hline
  have hup := bringUp_brings (H := H) (s := s) name a
  have hgo : (setExit H name a s).1 =
      let t : State F C := { (bringUp H name a s).1 with currentExit := some (echo name) }
      if s.current ≠ localName ∧ s.current ≠ name then exitDown H s.current a.downs t else t := by
    unfold setExit
    rw [if_neg hne, if_neg (by simp [hruled]), if_neg hlocal, if_neg (by simp [hexists])]
    dsimp only
    rw [bringUp_ok, if_pos (by simpa [Arrives, and_assoc] using harrives)]
  rw [hgo]
  dsimp only
  split
  · next hprev =>
    have hdown := exitDown_lowers (fresh_select (t := some (echo name)) (hup.fresh hs)) s.current a.downs
    refine ⟨hdown.files.trans hup.files, hcurrent hdown.currentExit, hdown.fresh, fun m => ?_⟩
    rw [hdown.running]
    exact and_congr (hup.running m) (by simp [hprev])
  · next hprev =>
    refine ⟨hup.files, hcurrent rfl, hup.fresh hs, fun m => ?_⟩
    rw [and_iff_left fun h => absurd h hprev]
    exact hup.running m

/-- The helper leaves the unit alone that runs it. -/
theorem not_revived_self {name : Text} {a : SetAnswers} (h : Revived H s name a) : s.current ≠ name := by
  rintro rfl
  obtain ⟨h', -, hrevives⟩ := h.post
  obtain ⟨k, hkind, hunit, hfound⟩ := hrevives.found
  obtain ⟨c, hfound⟩ := Option.isSome_iff_exists.mp hfound
  obtain rfl := Option.some.inj ((kindOf_exitType hkind hfound).symm.trans h.unit.1)
  exact hunit rfl rfl

theorem starts_named {name : Text} {a : SetAnswers} (h : Starts H s name a) : '/' ∉ name := by
  obtain ⟨k, -, hfound, -⟩ := h.found
  obtain ⟨c, hfound⟩ := Option.isSome_iff_exists.mp hfound
  exact (found_eq_some.mp hfound).1

theorem revived_named {name : Text} {a : SetAnswers} (h : Revived H s name a) :
    s.current ≠ [] ∧ s.current ≠ localName ∧ '/' ∉ s.current := by
  obtain ⟨h', -, hrevives⟩ := h.post
  obtain ⟨k, -, -, hfound⟩ := hrevives.found
  obtain ⟨c, hfound⟩ := Option.isSome_iff_exists.mp hfound
  exact ⟨hrevives.selected.1, hrevives.selected.2, (found_eq_some.mp hfound).1⟩

/-- What comes up has a name. -/
theorem bringUp_named (hn : Named s) {name : Text} (hne : name ≠ []) (hlocal : name ≠ localName)
    {a : SetAnswers} {m : Text} (h : Running s m ∨ (m = name ∧ Starts H s name a) ∨
      (m = s.current ∧ Revived H s name a)) : m ≠ [] ∧ m ≠ localName ∧ '/' ∉ m := by
  rcases h with h | ⟨rfl, h⟩ | ⟨rfl, h⟩
  · exact hn m h
  · exact ⟨hne, hlocal, starts_named h⟩
  · exact revived_named h

/-- The exit that `set_exit` gets to. -/
theorem setExit_arrives_iff (hs : OnlySelected H s) (hn : Named s) {name : Text} {a : SetAnswers}
    (hne : name ≠ []) (hruled : a.ruled = true) (hlocal : name ≠ localName)
    (hexists : s.files.exitExists H name = true) (harrives : Arrives H s name a) :
    OnlySelected H (setExit H name a s).1 ↔
      (s.current ≠ name → Running s s.current ∨ Revived H s name a → a.downs = true) ∧
        (isEchoOption name = true → ¬ Running s name ∧ ¬ Starts H s name a) := by
  obtain ⟨hfresh, hname⟩ := onlySelected_iff.mp hs
  obtain ⟨-, hcurrent, hfresh', hrunning⟩ := setExit_arrives hfresh hne hruled hlocal hexists harrives
  rw [onlySelected_iff, hcurrent, and_iff_right hfresh']
  constructor
  · intro h
    refine ⟨fun hother hcome => ?_, fun hecho => ?_⟩
    · by_contra hdowns
      have hcome : Running s s.current ∨ (s.current = name ∧ Starts H s name a) ∨
          (s.current = s.current ∧ Revived H s name a) := hcome.imp_right fun hr => .inr ⟨rfl, hr⟩
      have hstill := (hrunning s.current).mpr ⟨hcome, fun _ _ => by simpa using hdowns⟩
      have heq := h _ hstill
      split at heq
      · exact (bringUp_named hn hne hlocal hcome).1 heq
      · exact hother heq
    · have hempty : ∀ m, Running (setExit H name a s).1 m → m = [] := by
        simpa only [hecho, if_true] using h
      have hself : s.current ≠ localName ∧ s.current ≠ name → name = s.current → a.downs = false :=
        fun hprev heq => absurd heq.symm hprev.2
      constructor
      · exact fun hrun => hne (hempty name ((hrunning name).mpr ⟨.inl hrun, hself⟩))
      · exact fun hstarts => hne (hempty name ((hrunning name).mpr ⟨.inr (.inl ⟨rfl, hstarts⟩), hself⟩))
  · rintro ⟨hprev, hecho⟩ m hrun
    obtain ⟨hcome, hdown⟩ := (hrunning m).mp hrun
    by_cases hm : m = name
    · subst hm
      split
      · next hopt =>
        rcases hcome with hrun | ⟨-, hstarts⟩ | ⟨heq, hrevived⟩
        · exact absurd hrun (hecho hopt).1
        · exact absurd hstarts (hecho hopt).2
        · exact absurd heq.symm (not_revived_self hrevived)
      · rfl
    · -- what runs for another name is the engine from before, which was to be stopped
      have hsel : m = s.current ∧ (Running s s.current ∨ Revived H s name a) := by
        rcases hcome with hrun | ⟨heq, -⟩ | ⟨heq, hrevived⟩
        · obtain rfl := hname m hrun
          exact ⟨rfl, .inl hrun⟩
        · exact absurd heq hm
        · exact ⟨heq, .inr hrevived⟩
      obtain ⟨rfl, hup⟩ := hsel
      have hdowns := hdown ⟨(bringUp_named hn hne hlocal hcome).2.1, hm⟩ rfl
      exact absurd (hdowns.symm.trans (hprev hm hup)) Bool.false_ne_true

/-- The checks of `set_exit`: it stops at one of them, or goes on to `local` or to an exit. -/
theorem setExit_checks (s : State F C) (name : Text) (a : SetAnswers) :
    ((setExit H name a s).1 = s ∧
        ¬ (name ≠ [] ∧ a.ruled = true ∧ (name ≠ localName → s.files.exitExists H name = true))) ∨
      (a.ruled = true ∧ name = localName) ∨
      (name ≠ [] ∧ a.ruled = true ∧ name ≠ localName ∧ s.files.exitExists H name = true) := by
  unfold setExit
  by_cases hne : name = []
  · exact .inl ⟨by rw [if_pos hne], fun h => h.1 hne⟩
  rw [if_neg hne]
  by_cases hruled : a.ruled = true
  case neg => exact .inl ⟨by rw [if_pos (by simpa using hruled)], fun h => hruled h.2.1⟩
  rw [if_neg (by simp [hruled])]
  by_cases hlocal : name = localName
  · exact .inr (.inl ⟨hruled, hlocal⟩)
  rw [if_neg hlocal]
  by_cases hexists : s.files.exitExists H name = true
  · exact .inr (.inr ⟨hne, hruled, hlocal, hexists⟩)
  · exact .inl ⟨by rw [if_pos (by simpa using hexists)], fun h => hexists (h.2.2 hlocal)⟩

theorem setExit_iff (hs : OnlySelected H s) (hn : Named s) (name : Text) (a : SetAnswers) :
    OnlySelected H (setExit H name a s).1 ↔ SafeSet H s name a := by
  obtain ⟨hfresh, hname⟩ := onlySelected_iff.mp hs
  unfold SafeSet
  rcases setExit_checks s name a with ⟨hsame, hstop⟩ | ⟨hruled, rfl⟩ | ⟨hne, hruled, hlocal, hexists⟩
  · rw [hsame]
    refine iff_of_true hs fun hne hruled => ⟨fun hlocal => ?_, fun hlocal hexists => ?_⟩
    · exact absurd ⟨hne, hruled, fun h => absurd hlocal h⟩ hstop
    · exact absurd ⟨hne, hruled, fun _ => hexists⟩ hstop
  · obtain ⟨-, hcurrent, hfresh', hrunning⟩ := setExit_local (a := a) hfresh hruled
    rw [onlySelected_iff, hcurrent, and_iff_right hfresh']
    constructor
    · intro h _ _
      refine ⟨fun _ hrun => ?_, fun hlocal => absurd rfl hlocal⟩
      by_contra hdowns
      have hstill := (hrunning s.current).mpr ⟨hrun, fun _ _ => by simpa using hdowns⟩
      exact (hn _ hrun).2.1 (h _ hstill)
    · intro h m hrun
      obtain ⟨hrun, hdowns⟩ := (hrunning m).mp hrun
      obtain rfl := hname m hrun
      have hdown := (h (by decide) hruled).1 rfl hrun
      exact absurd ((hdowns (hn _ hrun).2.1 rfl).symm.trans hdown) Bool.false_ne_true
  by_cases harrives : Arrives H s name a
  · rw [setExit_arrives_iff hs hn hne hruled hlocal hexists harrives]
    constructor
    · intro h _ _
      exact ⟨fun heq => absurd heq hlocal, fun _ _ => ⟨fun _ => h, fun hnot => absurd harrives hnot⟩⟩
    · intro h
      exact ((h hne hruled).2 hlocal hexists).1 harrives
  · have hup := bringUp_brings (H := H) (s := s) name a
    rw [setExit_fails hne hruled hlocal hexists harrives, onlySelected_iff, hup.current,
      and_iff_right (hup.fresh hfresh)]
    constructor
    · intro h _ _
      refine ⟨fun heq => absurd heq hlocal, fun _ _ => ⟨fun hyes => absurd hyes harrives, fun _ => ?_⟩⟩
      intro hstarts
      exact h name ((hup.running name).mpr (.inr (.inl ⟨rfl, hstarts⟩)))
    · intro h m hrun
      rcases (hup.running m).mp hrun with hrun | ⟨rfl, hstarts⟩ | ⟨heq, -⟩
      · exact hname m hrun
      · exact ((h hne hruled).2 hlocal hexists).2 harrives hstarts
      · exact heq

theorem setExit_named (hs : Fresh H s) (hn : Named s) (name : Text) (a : SetAnswers) :
    Named (setExit H name a s).1 := by
  intro m hrun
  rcases setExit_checks s name a with ⟨hsame, -⟩ | ⟨hruled, rfl⟩ | ⟨hne, hruled, hlocal, hexists⟩
  · rw [hsame] at hrun
    exact hn m hrun
  · obtain ⟨-, -, -, hrunning⟩ := setExit_local (a := a) hs hruled
    exact hn m ((hrunning m).mp hrun).1
  by_cases harrives : Arrives H s name a
  · obtain ⟨-, -, -, hrunning⟩ := setExit_arrives hs hne hruled hlocal hexists harrives
    exact bringUp_named hn hne hlocal ((hrunning m).mp hrun).1
  · rw [setExit_fails hne hruled hlocal hexists harrives] at hrun
    exact bringUp_named hn hne hlocal (((bringUp_brings name a).running m).mp hrun)

/-! ## Adding and removing -/

/-- Names that `add_exit` takes have no slash. -/
theorem validName_slash {name : Text} (h : H.validName name = true) : '/' ∉ name := by
  have hall : ∀ t : Text, t.all H.nameChar = true → '/' ∉ t := by
    intro t ht hmem
    exact Bool.false_ne_true (H.nameChar_slash.symm.trans (List.all_eq_true.mp ht _ hmem))
  unfold Linux.validName at h
  simp only [Bool.and_eq_true, Bool.or_eq_true, decide_eq_true_eq] at h
  rcases h.2 with hname | ⟨hlast, hname⟩
  · exact hall name hname.2
  · obtain ⟨init, rfl⟩ := List.getLast?_eq_some_iff.mp hlast
    rw [List.dropLast_concat] at hname
    intro hmem
    rcases List.mem_append.mp hmem with hmem | hmem
    · exact hall init hname.2 hmem
    · exact absurd (List.mem_singleton.mp hmem) (by decide)

theorem kindOf_uriType {u t : Text} (h : uriType u = some t) : kindOf t = some .mihomo := by
  obtain ⟨st, hfind, rfl⟩ := Option.map_eq_some_iff.mp h
  have hall : ∀ st ∈ Selection.uriTypes, kindOf st.2 = some .mihomo := by decide
  exact hall st (List.mem_of_find?_eq_some hfind)

section Edits

variable [DecidableEq F]

/-- What `add_exit` makes of its source: a type and a configuration. -/
def Source.gives : Source C → Option (Text × C)
  | .uri u yaml => do some (← uriType u, ← yaml)
  | .conf c => do some (wireguard, ← c)

/-- **`SafeAdd`** — an engine that runs keeps its kind and its configuration. -/
def SafeAdd (H : Host F) (s : State F C) (name : Text) (source : Source C) : Prop :=
  H.validName name = true → name = s.current → ∀ t c, source.gives = some (t, c) →
    ∀ k c', s.engines (k, name) = some c' → kindOf t = some k ∧ c' = c

/-- The files of one name are not those that an engine of the other needs. -/
def Spares (H : Host F) (k : Kind) (name other : Text) : Prop :=
  match k with
  | .wg => H.confPath name ≠ H.confPath other
  | .mihomo => H.typePath name ≠ H.typePath other ∧ H.yamlPath name ≠ H.yamlPath other

/-- **`SafeDel`** — the engine of the exit can be stopped, and another exit does not share a file with
the one that is selected. -/
def SafeDel (H : Host F) (s : State F C) (name : Text) (a : SetAnswers) (downs : Bool) : Prop :=
  name ≠ [] → name ≠ localName → s.files.exitExists H name = true →
    (name = s.current → Running s name → a.ruled = true → a.downs = true ∨ downs = true) ∧
    (name ≠ s.current → ∀ k c, s.engines (k, s.current) = some c → Spares H k name s.current)

theorem exitType_put (f : Files F C) (k : Kind) (name t : Text) (c : C) :
    (f.put H k name t c).exitType H name = t := by
  unfold Files.put Files.exitType
  cases k <;> simp

theorem config_put (f : Files F C) (k : Kind) (name t : Text) (c : C) :
    (f.put H k name t c).config H k name = some c := by
  unfold Files.put Files.config
  cases k <;> simp

/-- The files of another exit stay as they are. -/
theorem put_other (f : Files F C) (k : Kind) {name other : Text} (hname : '/' ∉ name)
    (hother : '/' ∉ other) (hne : other ≠ name) (t : Text) (c : C) :
    (f.put H k name t c).exitType H other = f.exitType H other ∧
      ∀ k', (f.put H k name t c).config H k' other = f.config H k' other := by
  have htype : H.typePath other ≠ H.typePath name := fun h => hne (H.typePath_inj _ _ hother hname h)
  have hconf : H.confPath other ≠ H.confPath name := fun h => hne (H.confPath_inj _ _ hother hname h)
  have hyaml : H.yamlPath other ≠ H.yamlPath name := fun h => hne (H.yamlPath_inj _ _ hother hname h)
  constructor
  · unfold Files.put Files.exitType
    cases k <;> simp [htype, hconf]
  · intro k'
    unfold Files.put Files.config
    cases k <;> cases k' <;> simp [hconf, hyaml]

/-- What `add_exit` leaves: nothing new, or what its source gives. -/
theorem addExit_cases (s : State F C) (name : Text) (source : Source C) :
    ((addExit H name source s).1 = s ∧ (H.validName name = true → source.gives = none)) ∨
      (H.validName name = true ∧ ∃ k t c, source.gives = some (t, c) ∧ kindOf t = some k ∧
        (addExit H name source s).1 = { s with files := s.files.put H k name t c }) := by
  unfold addExit
  by_cases hvalid : H.validName name = true
  case neg => exact .inl ⟨by rw [if_pos (by simpa using hvalid)], fun h => absurd h hvalid⟩
  rw [if_neg (by simp [hvalid])]
  cases source with
  | uri u yaml =>
    cases htype : uriType u with
    | none => exact .inl ⟨by simp [htype], fun _ => by simp [Source.gives, htype]⟩
    | some t =>
      cases yaml with
      | none => exact .inl ⟨by simp [htype], fun _ => by simp [Source.gives]⟩
      | some c =>
        refine .inr ⟨hvalid, .mihomo, t, c, ?_, kindOf_uriType htype, ?_⟩
        · simp [Source.gives, htype]
        · simp [htype]
  | conf conf =>
    cases conf with
    | none => exact .inl ⟨rfl, fun _ => rfl⟩
    | some c => exact .inr ⟨hvalid, .wg, wireguard, c, rfl, rfl, rfl⟩

theorem addExit_iff (hs : OnlySelected H s) (hn : Named s) (name : Text) (source : Source C) :
    OnlySelected H (addExit H name source s).1 ↔ SafeAdd H s name source := by
  rcases addExit_cases (H := H) s name source with
    ⟨hsame, hnone⟩ | ⟨hvalid, k, t, c, hgives, hkind, hput⟩
  · rw [hsame]
    refine iff_of_true hs fun hvalid _ t c hgives => ?_
    exact nomatch (hnone hvalid).symm.trans hgives
  rw [hput]
  constructor
  · intro h _ _ t' c' hgives' k' c'' hrun
    obtain ⟨rfl, rfl⟩ := Prod.mk.inj (Option.some.inj (hgives.symm.trans hgives'))
    obtain ⟨-, hkind', hconfig⟩ := h k' name c'' hrun
    rw [exitType_put] at hkind'
    obtain rfl := Option.some.inj (hkind.symm.trans hkind')
    rw [config_put] at hconfig
    exact ⟨hkind, (Option.some.inj hconfig).symm⟩
  · intro h k' m c' hrun
    obtain ⟨hm, hkind', hconfig⟩ := hs k' m c' hrun
    refine ⟨hm, ?_⟩
    by_cases hself : m = name
    · subst hself
      obtain ⟨hkept, rfl⟩ := h hvalid hm t c hgives k' c' hrun
      obtain rfl := Option.some.inj (hkind.symm.trans hkept)
      rw [exitType_put, config_put]
      exact ⟨hkind, rfl⟩
    · have hslash := (hn m ⟨k', c', hrun⟩).2.2
      have hfiles := put_other (H := H) s.files k (validName_slash hvalid) hslash hself t c
      rw [hfiles.1, hfiles.2]
      exact ⟨hkind', hconfig⟩

/-- What of an engine that is not stale becomes stale with the files of a name. -/
theorem present_remove_iff {f : Files F C} {k : Kind} {other : Text} {c : C}
    (hkind : kindOf (f.exitType H other) = some k) (hconfig : f.config H k other = some c)
    (name : Text) :
    (kindOf ((f.remove H name).exitType H other) = some k ∧
        (f.remove H name).config H k other = some c) ↔ Spares H k name other := by
  cases k with
  | wg =>
    have hconf : f.confs (H.confPath other) = some c := hconfig
    constructor
    · rintro ⟨-, h⟩ heq
      simp [Files.config, Files.remove, heq] at h
    · intro hne
      have hkept : (f.remove H name).confs (H.confPath other) = some c :=
        (Function.update_of_ne (Ne.symm hne) _ _).trans hconf
      refine ⟨?_, hkept⟩
      unfold Files.exitType at hkind ⊢
      rw [hkept]
      rw [hconf] at hkind
      by_cases htype : H.typePath other = H.typePath name
      · simp [Files.remove, htype]
        rfl
      · simpa [Files.remove, htype] using hkind
  | mihomo =>
    have hyaml : f.yamls (H.yamlPath other) = some c := hconfig
    have hnone : ∀ b : Bool, kindOf (if b then wireguard else []) ≠ some .mihomo := by decide
    constructor
    · rintro ⟨hkind', hconfig'⟩
      constructor
      · intro heq
        simp only [Files.exitType, Files.remove, heq, Function.update_self] at hkind'
        exact hnone _ hkind'
      · intro heq
        simp [Files.config, Files.remove, heq] at hconfig'
    · rintro ⟨htype, hne⟩
      refine ⟨?_, (Function.update_of_ne (Ne.symm hne) _ _).trans hyaml⟩
      unfold Files.exitType at hkind ⊢
      cases ht : f.types (H.typePath other) with
      | none =>
        rw [ht] at hkind
        exact absurd hkind (hnone _)
      | some t =>
        rw [ht] at hkind
        simpa [Files.remove, Ne.symm htype, ht] using hkind

/-- `del_exit` of the exit that is selected. -/
theorem delExit_selected (hs : OnlySelected H s) {name : Text} {a : SetAnswers}
    (hne : name ≠ []) (hlocal : name ≠ localName) (hexists : s.files.exitExists H name = true)
    (hsel : s.current = name) (hruled : a.ruled = true) (downs : Bool) :
    let s' := (delExit H name a downs s).1
    s'.current = localName ∧ ∀ m, Running s' m ↔ Running s m ∧ a.downs = false ∧ downs = false := by
  obtain ⟨hfresh, hname⟩ := onlySelected_iff.mp hs
  obtain ⟨-, hcurrent, hfresh', hrunning⟩ := setExit_local (H := H) (s := s) (a := a) hfresh hruled
  have hdown := exitDown_lowers hfresh' name downs
  have hok : (setExit H localName a s).2 = true := by
    unfold setExit
    rw [if_neg (by decide), if_neg (by simp [hruled]), if_pos rfl]
  have hgo : (delExit H name a downs s).1 =
      { exitDown H name downs (setExit H localName a s).1 with
        files := (exitDown H name downs (setExit H localName a s).1).files.remove H name } := by
    unfold delExit
    rw [if_neg (by simp [hne, hlocal, hexists]), if_pos hsel]
    simp only [hok, if_true]
  rw [hgo]
  refine ⟨?_, fun m => ?_⟩
  · show (match (exitDown H name downs (setExit H localName a s).1).currentExit with
      | some t => captured t
      | none => localName) = localName
    rw [hdown.currentExit]
    exact hcurrent
  · refine (hdown.running m).trans ((and_congr_left' (hrunning m)).trans ?_)
    rw [and_assoc]
    refine and_congr_right fun hrun => ?_
    have hm : m = s.current := hname m hrun
    simp [hm, hsel, hlocal]

/-- `del_exit` of another exit takes files at most. -/
theorem delExit_other {name : Text} {a : SetAnswers} (hne : name ≠ []) (hlocal : name ≠ localName)
    (hexists : s.files.exitExists H name = true) (hother : s.current ≠ name)
    (hidle : ¬ Running s name) (downs : Bool) :
    (delExit H name a downs s).1 = { s with files := s.files.remove H name } := by
  unfold delExit
  rw [if_neg (by simp [hne, hlocal, hexists]), if_neg hother]
  simp only [if_true]
  rw [exitDown_idle hidle]

/-- The checks of `del_exit`. -/
theorem delExit_checks (s : State F C) (name : Text) (a : SetAnswers) (downs : Bool) :
    ((delExit H name a downs s).1 = s ∧
        ¬ (name ≠ [] ∧ name ≠ localName ∧ s.files.exitExists H name = true ∧
          (s.current = name → a.ruled = true))) ∨
      (name ≠ [] ∧ name ≠ localName ∧ s.files.exitExists H name = true ∧
        (s.current = name → a.ruled = true)) := by
  by_cases hgo : name ≠ [] ∧ name ≠ localName ∧ s.files.exitExists H name = true ∧
      (s.current = name → a.ruled = true)
  · exact .inr hgo
  refine .inl ⟨?_, hgo⟩
  unfold delExit
  split
  · rfl
  · next hchecks =>
    simp only [not_or, Bool.not_eq_false] at hchecks
    have hstop : s.current = name ∧ a.ruled = false := by
      by_contra hnot
      exact hgo ⟨hchecks.1, hchecks.2.1, hchecks.2.2, fun hsel => by
        by_contra hruled
        exact hnot ⟨hsel, by simpa using hruled⟩⟩
    have hset : setExit H localName a s = (s, false) := by
      unfold setExit
      rw [if_neg (by decide), if_pos (by simp [hstop.2])]
    rw [if_pos hstop.1, hset]
    rfl

theorem delExit_iff (hs : OnlySelected H s) (name : Text) (a : SetAnswers)
    (downs : Bool) : OnlySelected H (delExit H name a downs s).1 ↔ SafeDel H s name a downs := by
  obtain ⟨hfresh, hname⟩ := onlySelected_iff.mp hs
  rcases delExit_checks (H := H) s name a downs with ⟨hsame, hstop⟩ | ⟨hne, hlocal, hexists, hruled⟩
  · rw [hsame]
    refine iff_of_true hs fun hne hlocal hexists => ⟨fun hsel _ hruled => ?_, fun hother => ?_⟩
    · exact absurd ⟨hne, hlocal, hexists, fun _ => hruled⟩ hstop
    · exact absurd ⟨hne, hlocal, hexists, fun hsel => absurd hsel.symm hother⟩ hstop
  by_cases hsel : s.current = name
  · obtain ⟨hcurrent, hrunning⟩ := delExit_selected hs hne hlocal hexists hsel (hruled hsel) downs
    constructor
    · intro h _ _ _
      refine ⟨fun _ hrun _ => ?_, fun hother => absurd hsel.symm hother⟩
      by_contra hdowns
      have hstill := (hrunning name).mpr ⟨hrun, by simpa using hdowns⟩
      have hm := (onlySelected_iff.mp h).2 name hstill
      exact hlocal (hm.trans hcurrent)
    · intro h k m c hrun
      obtain ⟨hrun, hdowns⟩ := (hrunning m).mp ⟨k, c, hrun⟩
      have hm : m = name := (hname m hrun).trans hsel
      rw [hm] at hrun
      have hdown := (h hne hlocal hexists).1 hsel.symm hrun (hruled hsel)
      simp [hdowns] at hdown
  · have hidle : ¬ Running s name := fun hrun => hsel (hname name hrun).symm
    rw [delExit_other hne hlocal hexists hsel hidle]
    constructor
    · intro h _ _ _
      refine ⟨fun heq => absurd heq.symm hsel, fun _ k c hrun => ?_⟩
      obtain ⟨-, hkind, hconfig⟩ := hs k _ c hrun
      exact (present_remove_iff hkind hconfig name).mp (h k _ c hrun).2
    · intro h k m c hrun
      obtain ⟨hm, hkind, hconfig⟩ := hs k m c hrun
      subst hm
      refine ⟨rfl, (present_remove_iff hkind hconfig name).mpr ?_⟩
      exact (h hne hlocal hexists).2 (Ne.symm hsel) k c hrun

/-- No command lets an engine run for `local`. -/
theorem exec_named (hs : OnlySelected H s) (hn : Named s) (c : Command C) :
    Named (exec H c s).1 := by
  obtain ⟨hfresh, hname⟩ := onlySelected_iff.mp hs
  cases c with
  | setExit name a => exact setExit_named hfresh hn name a
  | addExit name source =>
    show Named (addExit H name source s).1
    rcases addExit_cases (H := H) s name source with ⟨hsame, -⟩ | ⟨-, k, t, c, -, -, hput⟩
    · rwa [hsame]
    · rw [hput]
      exact hn
  | delExit name a downs =>
    show Named (delExit H name a downs s).1
    rcases delExit_checks (H := H) s name a downs with ⟨hsame, -⟩ | ⟨hne, hlocal, hexists, hruled⟩
    · rwa [hsame]
    by_cases hsel : s.current = name
    · obtain ⟨-, hrunning⟩ := delExit_selected hs hne hlocal hexists hsel (hruled hsel) downs
      exact fun m hrun => hn m ((hrunning m).mp hrun).1
    · have hidle : ¬ Running s name := fun hrun => hsel (hname name hrun).symm
      rw [delExit_other hne hlocal hexists hsel hidle]
      exact hn

/-! ## Runs -/

/-- **`Safe`** — the command leaves no gap. -/
def Safe (H : Host F) (s : State F C) : Command C → Prop
  | .setExit name a => SafeSet H s name a
  | .delExit name a downs => SafeDel H s name a downs
  | .addExit name source => SafeAdd H s name source

/-- After the command, only the engine of the selected exit runs. -/
def Holds (H : Host F) (s : State F C) (c : Command C) : Prop := OnlySelected H (exec H c s).1

/-- One step: exactly the safe commands keep what holds. -/
theorem holds_iff (hs : OnlySelected H s) (hn : Named s) (c : Command C) :
    Holds H s c ↔ Safe H s c := by
  cases c with
  | setExit name a => exact setExit_iff hs hn name a
  | delExit name a downs => exact delExit_iff hs name a downs
  | addExit name source => exact addExit_iff hs hn name source

/-- **`engines_run_iff`** — in a run from the installation on, only the engine of the selected exit runs
after each command exactly when each command is safe. -/
theorem engines_run_iff (H : Host F) (files : Files F C) (commands : List (Command C)) :
    Along (step H) (Holds H) (setup files) commands ↔
      Along (step H) (Safe H) (setup files) commands := by
  have hiff : ∀ (s : State F C) c, OnlySelected H s ∧ Named s → (Holds H s c ↔ Safe H s c) :=
    fun s c hs => holds_iff hs.1 hs.2 c
  have hnext : ∀ (s : State F C) c s', OnlySelected H s ∧ Named s → Holds H s c →
      step H s c = some s' → OnlySelected H s' ∧ Named s' := by
    intro s c s' hs hholds hstep
    obtain rfl : (exec H c s).1 = s' := Option.some.inj hstep
    exact ⟨hholds, exec_named hs.1 hs.2 c⟩
  have hstart : OnlySelected H (setup files) ∧ Named (setup files : State F C) := by
    refine ⟨fun _ _ _ hrun => (nomatch hrun), ?_⟩
    rintro _ ⟨_, _, hrun⟩
    nomatch hrun
  exact Along.iff_of_invariant hiff hnext hstart commands

end Edits

end Running

/-! ## Without the engines -/

section View

variable {F C : Type} {H : Host F}

/-- What `Exits.Selection` keeps of a state, with a route. -/
def State.view (s : State F C) (route : Option Text) : Selection.State F :=
  ⟨s.files.types, fun f => (s.files.confs f).isSome, s.currentExit, route⟩

def Source.selection : Source C → Selection.Source
  | .uri u yaml => .uri u yaml.isSome
  | .conf c => .conf c.isSome

def Command.selection : Command C → Selection.Command
  | .setExit name a => .setExit name a
  | .delExit name a downs => .delExit name a downs
  | .addExit name source => .addExit name source.selection

/-- The helper changes the route at most. -/
theorem execStartPost_route (a : Answers) (t : Selection.State F) :
    ∃ route, Selection.execStartPost H.toLinux a t = { t with route := route } := by
  unfold Selection.execStartPost Selection.applyExit
  split
  · exact ⟨t.route, rfl⟩
  dsimp only
  split
  · exact ⟨none, rfl⟩
  -- whatever is done about the engine, the state stays
  have hdone : ∀ p : Selection.State F × Bool, p.1 = t →
      ∃ route, (if p.2 && H.deviceUp t.current a.up && a.replaced then
          (({ p.1 with route := some (Selection.iface t.current) }, true) : Selection.State F × Bool)
        else (p.1, false)).1 = { t with route := route } := by
    rintro ⟨_, ok⟩ rfl
    split
    · exact ⟨_, rfl⟩
    · exact ⟨_, rfl⟩
  apply hdone
  split
  · rfl
  split
  · rfl
  split <;> rfl

theorem bringUp_view (name : Text) (a : SetAnswers) (s : State F C) (route : Option Text) :
    ∃ route', (if a.shown then (s.view route, true)
        else Selection.exitUp H.toLinux name a (s.view route)) =
      ((bringUp H name a s).1.view route', (bringUp H name a s).2) := by
  have hup := bringUp_brings (H := H) (s := s) name a
  have hview : ∀ route', (bringUp H name a s).1.view route' = s.view route' := by
    intro route'
    unfold State.view
    rw [hup.files, hup.currentExit]
  simp only [hview, bringUp_ok]
  have htype : (s.view route).exitType H.toLinux name = s.files.exitType H name := rfl
  unfold Selection.exitUp Files.brings kindOf
  cases a.shown with
  | true => exact ⟨route, rfl⟩
  | false =>
    simp only [Bool.false_eq_true, if_false, htype, Bool.false_or]
    split
    · exact ⟨route, rfl⟩
    split
    · cases a.mihomo with
      | false => exact ⟨route, rfl⟩
      | true =>
        unfold Selection.startEngine
        cases a.start.post with
        | none => exact ⟨route, rfl⟩
        | some h =>
          obtain ⟨route', hroute⟩ := execStartPost_route (H := H) h (s.view route)
          exact ⟨route', Prod.ext hroute (Bool.true_and _).symm⟩
    · exact ⟨route, rfl⟩

theorem exitDown_view (name : Text) (downs : Bool) (s : State F C) (route : Option Text) :
    ∃ route', Selection.exitDown H.toLinux name downs (s.view route) =
      (exitDown H name downs s).view route' := by
  have hsame : ∀ route', (exitDown H name downs s).view route' = s.view route' := by
    intro route'
    unfold exitDown
    split
    · split <;> rfl
    · rfl
  simp only [hsame]
  unfold Selection.exitDown
  dsimp only
  split
  · exact ⟨_, Selection.lose_eq _ _⟩
  · exact ⟨route, rfl⟩

theorem setExit_view (name : Text) (a : SetAnswers) (s : State F C) (route : Option Text) :
    ∃ route', Selection.setExit H.toLinux name a (s.view route) =
      ((setExit H name a s).1.view route', (setExit H name a s).2) := by
  unfold Selection.setExit setExit
  split
  · exact ⟨route, rfl⟩
  split
  · exact ⟨route, rfl⟩
  dsimp only
  split
  · -- `local`
    have hprev : (s.view route).current = s.current := rfl
    rw [hprev]
    split
    · obtain ⟨route', hdown⟩ := exitDown_view (H := H) s.current a.downs
        { s with currentExit := some (echo localName) } none
      exact ⟨route', Prod.ext hdown rfl⟩
    · exact ⟨none, rfl⟩
  have hexists : (s.view route).exitExists H.toLinux name = s.files.exitExists H name := rfl
  rw [hexists]
  split
  · exact ⟨route, rfl⟩
  obtain ⟨route', hup⟩ := bringUp_view (H := H) name a s route
  rw [hup]
  dsimp only
  split
  · have hprev : (s.view route).current = s.current := rfl
    rw [hprev]
    split
    · obtain ⟨route'', hdown⟩ := exitDown_view (H := H) s.current a.downs
        { (bringUp H name a s).1 with currentExit := some (echo name) } (some (Selection.iface name))
      exact ⟨route'', Prod.ext hdown rfl⟩
    · exact ⟨some (Selection.iface name), rfl⟩
  · exact ⟨route', rfl⟩

section

variable [DecidableEq F]

/-- Which files there are, after one of them is written or removed. -/
theorem isSome_update (confs : F → Option C) (path : F) (conf : Option C) :
    (fun f => (Function.update confs path conf f).isSome) =
      Function.update (fun f => (confs f).isSome) path conf.isSome := by
  funext f
  by_cases hf : f = path
  · rw [hf, Function.update_self, Function.update_self]
  · rw [Function.update_of_ne hf, Function.update_of_ne hf]

theorem delExit_view (name : Text) (a : SetAnswers) (downs : Bool) (s : State F C)
    (route : Option Text) :
    ∃ route', Selection.delExit H.toLinux name a downs (s.view route) =
      ((delExit H name a downs s).1.view route', (delExit H name a downs s).2) := by
  have hexists : (s.view route).exitExists H.toLinux name = s.files.exitExists H name := rfl
  have hcurrent : (s.view route).current = s.current := rfl
  unfold Selection.delExit delExit
  rw [hexists, hcurrent]
  split
  · exact ⟨route, rfl⟩
  have hset : ∃ route', (if s.current = name then Selection.setExit H.toLinux localName a (s.view route)
        else (s.view route, true)) =
      ((if s.current = name then setExit H localName a s else (s, true)).1.view route',
        (if s.current = name then setExit H localName a s else (s, true)).2) := by
    split
    · exact setExit_view localName a s route
    · exact ⟨route, rfl⟩
  obtain ⟨route', hset⟩ := hset
  rw [hset]
  generalize (if s.current = name then setExit H localName a s else (s, true)) = p
  dsimp only
  split
  · obtain ⟨route'', hdown⟩ := exitDown_view (H := H) name downs p.1 route'
    refine ⟨route'', ?_⟩
    rw [hdown]
    unfold Selection.State.remove State.view Files.remove
    rw [isSome_update]
    rfl
  · exact ⟨route', rfl⟩

theorem addExit_view (name : Text) (source : Source C) (s : State F C) (route : Option Text) :
    Selection.addExit H.toLinux name source.selection (s.view route) =
      ((addExit H name source s).1.view route, (addExit H name source s).2) := by
  unfold Selection.addExit addExit
  split
  · rfl
  cases source with
  | uri u yaml =>
    dsimp only [Source.selection]
    cases uriType u with
    | none => rfl
    | some t =>
      cases yaml with
      | none => rfl
      | some c => rfl
  | conf conf =>
    cases conf with
    | none => rfl
    | some c =>
      dsimp only [Source.selection, Option.isSome_some, if_true]
      unfold State.view Files.put
      rw [isSome_update]
      rfl

/-- **`exec_view`** — without the engines these are the commands of `Exits.Selection`. -/
theorem exec_view (c : Command C) (s : State F C) (route : Option Text) :
    ∃ route', Selection.exec H.toLinux c.selection (s.view route) =
      ((exec H c s).1.view route', (exec H c s).2) := by
  cases c with
  | setExit name a => exact setExit_view name a s route
  | delExit name a downs => exact delExit_view name a downs s route
  | addExit name source => exact ⟨route, addExit_view name source s route⟩

end

end View

/-! ## A device that does not appear -/

/-- Every name has its own files. -/
def plainHost : Host Text :=
  { Selection.plainLinux with
    yamlPath := id
    yamlPath_inj := fun _ _ _ _ h => h
    nameChar_slash := by decide }

/-- The exit `a` is added and selected, and its device does not come up: `local` stays selected, and the
engine of `a` runs. -/
theorem engine_left_behind : ¬ ∀ (F C : Type) (_ : DecidableEq F) (H : Host F) (files : Files F C)
    (commands : List (Command C)), Along (step H) (Holds H) (setup files) commands := by
  intro hclaim
  let absent : SetAnswers := { Selection.works with up := false }
  have hrun := hclaim Text Unit inferInstance plainHost ⟨fun _ => none, fun _ => none, fun _ => none⟩
    [.addExit (lit "a") (.uri (lit "ss://x") (some ())), .setExit (lit "a") absent]
  have hset := (hrun.2 _ rfl).1
  have hname := (hset .mihomo (lit "a") () rfl).1
  revert hname
  decide

end ProxyGateway.Exits.Engines
