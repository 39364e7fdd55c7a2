/-
# ProxyGateway.Exits.Selection — which exit is selected, in three places at once

The selected exit is written down three times: in the file `current-exit`, in the default route of
table 100, and in the exit files themselves.  `set_exit`, `del_exit`, `add_exit` and `set_rules`
change them one after the other, and so does `proxy-gateway-apply-exit.sh`, which systemd runs
whenever an engine comes up, in the middle of a `set_exit` too.  Every tool they call may fail; what
the tools answer is part of a command here.

The three agree (`Consistent`) after every command of a run, and a `set_exit` that fails changes
nothing, exactly when no command of the run is one of three (`selection_run_iff`):
  * a `set_exit` that gets through with a name that `echo` takes for an option;
  * a `del_exit` whose name denotes the files of the selected exit without being its name;
  * a `set_rules` that restarts the selected router and is left without its route.
-/
import ProxyGateway.Lang.Text
import ProxyGateway.Logic.Machine
import Mathlib.Logic.Function.Basic

namespace ProxyGateway.Exits.Selection

open ProxyGateway.Lang ProxyGateway.Logic

/-! ## The machine -/

/-- **`Linux`** — where the files of an exit are, which names a network device may have, and the
characters `[\w\-\u4e00-\u9fff]` of an exit name.  Names without a slash denote files of their
own. -/
structure Linux (F : Type) where
  typePath : Text → F
  confPath : Text → F
  validDevice : Text → Bool
  nameChar : Char → Bool
  typePath_inj : ∀ a b, '/' ∉ a → '/' ∉ b → typePath a = typePath b → a = b
  confPath_inj : ∀ a b, '/' ∉ a → '/' ∉ b → confPath a = confPath b → a = b
  validDevice_newline : ∀ name, validDevice name = true → '\n' ∉ name

/-- The contents of the `.type` files, which WireGuard configurations there are, the file
`current-exit`, and the device of the default route of table 100. -/
structure State (F : Type) where
  types : F → Option Text
  confs : F → Bool
  currentExit : Option Text
  route : Option Text

def localName : Text := lit "local"
def smart : Text := lit "smart"
def wireguard : Text := lit "wireguard"

/-- `exit_iface` -/
def iface (name : Text) : Text := lit "pgw-" ++ name

/-- The types that an engine serves. -/
def engineTypes : List Text :=
  [lit "shadowsocks", lit "vmess", lit "trojan", lit "vless", lit "hysteria", lit "hysteria2",
    lit "tuic", lit "anytls", lit "shadowtls", lit "socks", lit "http", lit "router"]

section Commands

variable {F : Type} (L : Linux F)

/-- `$(cat current-exit)`; a missing file reads as `local`. -/
def State.current (s : State F) : Text :=
  match s.currentExit with
  | some t => captured t
  | none => localName

/-- **`exit_exists`** -/
def State.exitExists (s : State F) (name : Text) : Bool :=
  (s.types (L.typePath name)).isSome || s.confs (L.confPath name)

/-- **`exit_type`** -/
def State.exitType (s : State F) (name : Text) : Text :=
  match s.types (L.typePath name) with
  | some t => t
  | none => if s.confs (L.confPath name) then wireguard else []

/-- A device goes down, and the routes through it with it. -/
def State.lose (s : State F) (dev : Text) : State F :=
  if s.route = some dev then { s with route := none } else s

/-! ## The helper -/

/-- What the helper meets: the lookup rule is there, the device is shown, `wg-quick up` works, the
device is up within five seconds, the route is replaced. -/
structure Answers where
  ruled : Bool
  shown : Bool
  upped : Bool
  up : Bool
  replaced : Bool
  deriving DecidableEq, Repr

/-- The type that the helper reads. -/
def State.helperType (s : State F) (name : Text) : Text :=
  (s.types (L.typePath name)).getD wireguard

/-- `ip link show up` -/
def Linux.deviceUp (name : Text) (up : Bool) : Bool := L.validDevice (iface name) && up

/-- **`proxy-gateway-apply-exit.sh`**; `start` is what it does about the engine of a device that is
not shown. -/
def applyExit (a : Answers) (start : State F → State F × Bool) (s : State F) : State F × Bool :=
  if !a.ruled then (s, false)
  else
    let current := s.current
    if current = [] ∨ current = localName then ({ s with route := none }, true)
    else
      let etype := s.helperType L current
      let (s, ok) :=
        if a.shown then (s, true)
        else if etype = wireguard then (s, a.upped)
        else if etype ∈ engineTypes then start s
        else (s, true)
      if ok && L.deviceUp current a.up && a.replaced then
        ({ s with route := some (iface current) }, true)
      else (s, false)

/-- The helper as `ExecStartPost`: the unit is activating, so it is not started once more. -/
def execStartPost (a : Answers) (s : State F) : State F := (applyExit L a (·, true) s).1

/-- How `systemctl start` of an engine ends, and whether it came to run `ExecStartPost`. -/
structure Start where
  ok : Bool
  post : Option Answers
  deriving DecidableEq, Repr

/-- `systemctl start` -/
def startEngine (st : Start) (s : State F) : State F × Bool :=
  match st.post with
  | some a => (execStartPost L a s, st.ok)
  | none => (s, st.ok)

/-! ## Selecting -/

/-- What `set_exit` meets. -/
structure SetAnswers where
  ruled : Bool
  shown : Bool
  /-- `wg-quick up`, where it is installed. -/
  wg : Bool
  /-- `ensure_mihomo` -/
  mihomo : Bool
  start : Start
  up : Bool
  replaced : Bool
  /-- The device of the exit before goes down. -/
  downs : Bool
  deriving DecidableEq, Repr

/-- **`exit_up`** -/
def exitUp (name : Text) (a : SetAnswers) (s : State F) : State F × Bool :=
  let t := s.exitType L name
  if t = wireguard then (s, a.wg)
  else if t ∈ engineTypes then
    if a.mihomo then startEngine L a.start s else (s, false)
  else (s, false)

/-- **`exit_down`** -/
def exitDown (name : Text) (downs : Bool) (s : State F) : State F :=
  let t := s.exitType L name
  if (t = wireguard ∨ t ∈ engineTypes) ∧ downs then s.lose (iface name) else s

/-- **`set_exit`** -/
def setExit (name : Text) (a : SetAnswers) (s : State F) : State F × Bool :=
  if name = [] then (s, false)
  else if !a.ruled then (s, false)
  else
    let prev := s.current
    if name = localName then
      let s := { s with route := none, currentExit := some (echo localName) }
      (if prev ≠ localName then exitDown L prev a.downs s else s, true)
    else if !s.exitExists L name then (s, false)
    else
      let (s, ok) := if a.shown then (s, true) else exitUp L name a s
      if ok && L.deviceUp name a.up && a.replaced then
        let s := { s with route := some (iface name), currentExit := some (echo name) }
        (if prev ≠ localName ∧ prev ≠ name then exitDown L prev a.downs s else s, true)
      else (s, false)

/-! ## Adding and removing -/

variable [DecidableEq F]

/-- The `.type` file of a name is written or removed. -/
def State.putType (s : State F) (name : Text) (t : Option Text) : State F :=
  { s with types := Function.update s.types (L.typePath name) t }

/-- The files of a name are gone. -/
def State.remove (s : State F) (name : Text) : State F :=
  { s with
    types := Function.update s.types (L.typePath name) none
    confs := Function.update s.confs (L.confPath name) false }

/-- **`del_exit`** -/
def delExit (name : Text) (a : SetAnswers) (downs : Bool) (s : State F) : State F × Bool :=
  if name = [] ∨ name = localName ∨ s.exitExists L name = false then (s, false)
  else
    let (s, ok) := if s.current = name then setExit L localName a s else (s, true)
    if ok then ((exitDown L name downs s).remove L name, true) else (s, false)

/-- `re.match(r"^[\w\-\u4e00-\u9fff]{1,16}$", name)`; `$` also matches before a line end at the
end. -/
def Linux.validName (name : Text) : Bool :=
  let isName := fun t : Text => t ≠ [] && t.length ≤ 16 && t.all L.nameChar
  name ∉ [localName, smart] &&
    (isName name || (name.getLast? = some '\n' && isName name.dropLast))

/-- The schemes, in the order of the `case`. -/
def uriTypes : List (Text × Text) :=
  [(lit "ss://", lit "shadowsocks"), (lit "vmess://", lit "vmess"), (lit "trojan://", lit "trojan"),
    (lit "vless://", lit "vless"), (lit "hysteria2://", lit "hysteria2"),
    (lit "hy2://", lit "hysteria2"), (lit "tuic://", lit "tuic"), (lit "anytls://", lit "anytls"),
    (lit "socks5h://", lit "socks"), (lit "socks5://", lit "socks"), (lit "socks://", lit "socks"),
    (lit "http://", lit "http"), (lit "https://", lit "http")]

def uriType (uri : Text) : Option Text :=
  (uriTypes.find? fun st => st.1.isPrefixOf (uri.map Char.toLower)).map Prod.snd

/-- What `add_exit` finds in its source, and whether the tools take it. -/
inductive Source where
  | uri (uri : Text) (accepted : Bool)
  | conf (accepted : Bool)
  deriving DecidableEq, Repr

/-- **`add_exit`** -/
def addExit (name : Text) (source : Source) (s : State F) : State F × Bool :=
  if !L.validName name then (s, false)
  else match source with
    | .uri uri accepted =>
      match uriType uri with
      | some t =>
        if accepted then (s.putType L name (some t), true) else (s, false)
      | none => (s, false)
    | .conf accepted =>
      if accepted then
        ({ s with
          types := Function.update s.types (L.typePath name) (some wireguard)
          confs := Function.update s.confs (L.confPath name) true }, true)
      else (s, false)

/-! ## The rules of the router -/

/-- How `systemctl restart` goes: whether it stops the engine, and how it starts it. -/
structure Restart where
  stops : Bool
  start : Start
  deriving DecidableEq, Repr

/-- `systemctl restart proxy-gateway-mihomo@smart.service` -/
def restartSmart (r : Restart) (s : State F) : State F × Bool :=
  startEngine L r.start (if r.stops then s.lose (iface smart) else s)

/-- What `set_rules` meets: the candidates are built, they are committed, and the two restarts. -/
structure RulesAnswers where
  builds : Bool
  commits : Bool
  first : Restart
  second : Restart
  deriving DecidableEq, Repr

/-- The end of `set_rules`, with the router selected: `before` is the type file from before. -/
def reloadSmart (a : RulesAnswers) (before : Option Text) (s : State F) : State F × Bool :=
  let (s, ok) := restartSmart L a.first s
  if ok then (s, true) else ((restartSmart L a.second (s.putType L smart before)).1, false)

/-- **`set_rules`** — a commit that fails restores the files it has replaced. -/
def setRules (a : RulesAnswers) (s : State F) : State F × Bool :=
  if !a.builds then (s, false)
  else if !a.commits then (s, false)
  else
    let before := s.types (L.typePath smart)
    let s := s.putType L smart (some (lit "router"))
    if s.current ≠ smart then (s, true) else reloadSmart L a before s

/-! ## Runs -/

inductive Command where
  | setExit (name : Text) (a : SetAnswers)
  | delExit (name : Text) (a : SetAnswers) (downs : Bool)
  | addExit (name : Text) (source : Source)
  | setRules (a : RulesAnswers)
  | applyExit (a : Answers) (start : Option Start)
  deriving DecidableEq, Repr

/-- A command, and whether it succeeds.  `start` is none where the unit of the engine is not
inactive. -/
def exec : Command → State F → State F × Bool
  | .setExit name a => setExit L name a
  | .delExit name a downs => delExit L name a downs
  | .addExit name source => addExit L name source
  | .setRules a => setRules L a
  | .applyExit a start => applyExit L a fun s =>
      match start with
      | some st => startEngine L st s
      | none => (s, true)

def step (s : State F) (c : Command) : Option (State F) := some (exec L c s).1

/-- After `setup_exit_switching`, whatever exits there are. -/
def setup (types : F → Option Text) (confs : F → Bool) : State F :=
  ⟨types, confs, some (echo localName), none⟩

end Commands

/-! ## Consistency -/

section Consistency

variable {F : Type} {L : Linux F} {s : State F}

/-- **`Consistent`** — `current-exit` is `local` and table 100 is empty, or it names an exit that
exists and the default route goes through the device of that exit. -/
def Consistent (L : Linux F) (s : State F) : Prop :=
  if s.current = localName then s.route = none
  else s.current ≠ [] ∧ s.exitExists L s.current = true ∧ s.route = some (iface s.current)

theorem iface_inj {a b : Text} (h : iface a = iface b) : a = b := List.append_cancel_left h

/-- Losing a device hurts only the route through it. -/
theorem lose_eq (s : State F) (dev : Text) :
    s.lose dev = { s with route := if s.route = some dev then none else s.route } := by
  unfold State.lose
  split <;> rfl

theorem lose_eq_self {dev : Text} (h : s.route ≠ some dev) : s.lose dev = s := if_neg h

theorem exitDown_eq_self {name : Text} (h : s.route ≠ some (iface name)) (downs : Bool) :
    exitDown L name downs s = s := by
  unfold exitDown
  simp only [lose_eq_self h, ite_self]

/-- In a consistent state there is nothing for the helper to do. -/
theorem applyExit_eq_self (hs : Consistent L s) (a : Answers) {start : State F → State F × Bool}
    (hstart : (start s).1 = s) : (applyExit L a start s).1 = s := by
  unfold applyExit
  split
  · rfl
  · dsimp only
    split
    · next hidle =>
      have hroute : s.route = none := by
        by_cases hlocal : s.current = localName
        · rwa [Consistent, if_pos hlocal] at hs
        · rw [Consistent, if_neg hlocal] at hs
          exact absurd (hidle.resolve_right hlocal) hs.1
      rw [← hroute]
    · next hactive =>
      have hroute : s.route = some (iface s.current) := by
        rw [Consistent, if_neg fun hlocal => hactive (.inr hlocal)] at hs
        exact hs.2.2
      -- whatever was done about the engine, the state is the one from before
      have hdone : ∀ p : State F × Bool, p.1 = s →
          (if p.2 && L.deviceUp s.current a.up && a.replaced then
            ({ p.1 with route := some (iface s.current) }, true)
          else (p.1, false)).1 = s := by
        rintro ⟨t, ok⟩ rfl
        split
        · rw [← hroute]
        · rfl
      apply hdone
      split
      · rfl
      · split
        · rfl
        · split
          · exact hstart
          · rfl

theorem execStartPost_eq_self (hs : Consistent L s) (a : Answers) : execStartPost L a s = s :=
  applyExit_eq_self hs a rfl

theorem startEngine_eq_self (hs : Consistent L s) (st : Start) : (startEngine L st s).1 = s := by
  unfold startEngine
  split
  · exact execStartPost_eq_self hs _
  · rfl

theorem exitUp_eq_self (hs : Consistent L s) (name : Text) (a : SetAnswers) :
    (exitUp L name a s).1 = s := by
  unfold exitUp
  dsimp only
  split
  · rfl
  · split
    · split
      · exact startEngine_eq_self hs _
      · rfl
    · rfl

/-! ## What each command does in a consistent state -/

/-- The device is there, or the exit comes up. -/
def State.brings (L : Linux F) (s : State F) (name : Text) (a : SetAnswers) : Bool :=
  a.shown ||
    if s.exitType L name = wireguard then a.wg
    else decide (s.exitType L name ∈ engineTypes) && a.mihomo && a.start.ok

/-- **`Selects`** — `set_exit` gets as far as writing the file. -/
structure State.Selects (L : Linux F) (s : State F) (name : Text) (a : SetAnswers) : Prop where
  named : name ≠ [] ∧ name ≠ localName
  ruled : a.ruled = true
  known : s.exitExists L name = true
  brings : s.brings L name a = true
  deviceUp : L.deviceUp name a.up = true
  replaced : a.replaced = true

/-- With the exit `name` in the file and in the route. -/
def State.select (s : State F) (name : Text) : State F :=
  { s with route := some (iface name), currentExit := some (echo name) }

def State.deselect (s : State F) : State F :=
  { s with route := none, currentExit := some (echo localName) }

theorem exitUp_ok (name : Text) (a : SetAnswers) :
    (if a.shown then (s, true) else exitUp L name a s).2 = s.brings L name a := by
  unfold exitUp State.brings startEngine
  cases a.shown with
  | true => rfl
  | false =>
    by_cases hwg : s.exitType L name = wireguard
    · simp [hwg]
    · by_cases htype : s.exitType L name ∈ engineTypes
      · cases hmihomo : a.mihomo with
        | true => cases hpost : a.start.post <;> simp [hwg, htype]
        | false => simp [hwg, htype]
      · simp [hwg, htype]

/-- **`setExit_cases`** — the route is emptied, or set, or everything is left as it was. -/
theorem setExit_cases (hs : Consistent L s) (name : Text) (a : SetAnswers) :
    (name = localName ∧ setExit L name a s = (s.deselect, true)) ∨
      (s.Selects L name a ∧ setExit L name a s = (s.select name, true)) ∨
      (¬ s.Selects L name a ∧ setExit L name a s = (s, false)) := by
  unfold setExit
  by_cases hempty : name = []
  · rw [if_pos hempty]
    exact .inr (.inr ⟨fun h => h.named.1 hempty, rfl⟩)
  rw [if_neg hempty]
  by_cases hruled : a.ruled = true
  case neg =>
    rw [Bool.not_eq_true] at hruled
    rw [hruled]
    exact .inr (.inr ⟨fun h => Bool.false_ne_true (hruled.symm.trans h.ruled), rfl⟩)
  rw [if_neg (by simp [hruled])]
  by_cases hlocal : name = localName
  · refine .inl ⟨hlocal, ?_⟩
    rw [if_pos hlocal]
    dsimp only
    -- the table is empty already, so the device that goes down takes nothing with it
    have hdown : exitDown L s.current a.downs s.deselect = s.deselect :=
      exitDown_eq_self (by simp [State.deselect]) _
    split
    · exact congrArg (·, true) hdown
    · rfl
  rw [if_neg hlocal]
  by_cases hknown : s.exitExists L name = true
  case neg =>
    rw [Bool.not_eq_true] at hknown
    rw [hknown]
    exact .inr (.inr ⟨fun h => Bool.false_ne_true (hknown.symm.trans h.known), rfl⟩)
  rw [if_neg (by simp [hknown])]
  have hbrings := exitUp_ok (L := L) (s := s) name a
  have hsame : (if a.shown then (s, true) else exitUp L name a s).1 = s := by
    split
    · rfl
    · exact exitUp_eq_self hs name a
  dsimp only
  rw [hbrings, hsame]
  by_cases hgo : (s.brings L name a && L.deviceUp name a.up && a.replaced) = true
  · refine .inr (.inl ⟨?_, ?_⟩)
    · simp only [Bool.and_eq_true] at hgo
      exact ⟨⟨hempty, hlocal⟩, hruled, hknown, hgo.1.1, hgo.1.2, hgo.2⟩
    · rw [if_pos hgo]
      split
      · next hprev =>
        have hroute : (s.select name).route ≠ some (iface s.current) := by
          intro heq
          exact hprev.2 (iface_inj (Option.some.inj heq)).symm
        exact congrArg (·, true) (exitDown_eq_self hroute a.downs)
      · rfl
  · refine .inr (.inr ⟨?_, if_neg hgo⟩)
    intro h
    exact hgo (by rw [h.brings, h.deviceUp, h.replaced]; rfl)

/-- A selection is consistent unless `echo` swallows the name. -/
theorem consistent_select_iff {name : Text} {a : SetAnswers} (h : s.Selects L name a) :
    Consistent L (s.select name) ↔ isEchoOption name = false := by
  have hdevice : L.validDevice (iface name) = true := (Bool.and_eq_true_iff.mp h.deviceUp).1
  have hline : '\n' ∉ name := fun hmem =>
    L.validDevice_newline _ hdevice (List.mem_append_right _ hmem)
  have hcurrent : (s.select name).current = if isEchoOption name then [] else name :=
    captured_echo hline
  unfold Consistent
  rw [hcurrent]
  cases isEchoOption name with
  | true => simp [localName]
  | false =>
    have hknown : (s.select name).exitExists L name = true := h.known
    have hroute : (s.select name).route = some (iface name) := rfl
    simp [h.named.1, h.named.2, hknown, hroute]

theorem current_deselect : s.deselect.current = localName := by
  have hline : '\n' ∉ localName := by decide
  exact (captured_echo hline).trans rfl

theorem consistent_of_local (hcurrent : s.current = localName) (hroute : s.route = none) :
    Consistent L s := by
  rwa [Consistent, if_pos hcurrent]

theorem consistent_setup (types : F → Option Text) (confs : F → Bool) :
    Consistent L (setup types confs) :=
  consistent_of_local (current_deselect (s := setup types confs)) rfl

theorem consistent_setExit_iff (hs : Consistent L s) (name : Text) (a : SetAnswers) :
    Consistent L (setExit L name a s).1 ↔ (s.Selects L name a → isEchoOption name = false) := by
  rcases setExit_cases hs name a with ⟨hlocal, heq⟩ | ⟨hsel, heq⟩ | ⟨hnot, heq⟩
  · rw [heq]
    exact iff_of_true (consistent_of_local current_deselect rfl) fun h => absurd hlocal h.named.2
  · rw [heq]
    constructor
    · intro h _
      exact (consistent_select_iff hsel).mp h
    · intro h
      exact (consistent_select_iff hsel).mpr (h hsel)
  · rw [heq]
    exact iff_of_true hs fun h => absurd h hnot

/-- A `set_exit` that fails has changed nothing. -/
theorem setExit_failed (hs : Consistent L s) {name : Text} {a : SetAnswers}
    (hfail : (setExit L name a s).2 = false) : (setExit L name a s).1 = s := by
  rcases setExit_cases hs name a with ⟨-, heq⟩ | ⟨-, heq⟩ | ⟨-, heq⟩
  · rw [heq] at hfail
    nomatch hfail
  · rw [heq] at hfail
    nomatch hfail
  · rw [heq]

/-- Whether a name denotes every file that the exit `current` has. -/
def State.CoveredBy (L : Linux F) (s : State F) (current name : Text) : Prop :=
  (s.types (L.typePath current) ≠ none → L.typePath current = L.typePath name) ∧
    (s.confs (L.confPath current) = true → L.confPath current = L.confPath name)

/-- Names without a slash are safe to delete. -/
theorem not_coveredBy {name : Text} (hs : Consistent L s) (hlocal : s.current ≠ localName)
    (hname : '/' ∉ name) (hcurrent : '/' ∉ s.current) (hother : s.current ≠ name) :
    ¬ s.CoveredBy L s.current name := by
  rw [Consistent, if_neg hlocal] at hs
  rintro ⟨htypes, hconfs⟩
  have hknown := hs.2.1
  rw [State.exitExists, Bool.or_eq_true, Option.isSome_iff_ne_none] at hknown
  rcases hknown with htype | hconf
  · exact hother (L.typePath_inj _ _ hcurrent hname (htypes htype))
  · exact hother (L.confPath_inj _ _ hcurrent hname (hconfs hconf))

/-- More files make no difference. -/
theorem Consistent.of_files {s' : State F} (hs : Consistent L s)
    (hexit : s'.currentExit = s.currentExit) (hroute : s'.route = s.route)
    (hfiles : ∀ name, s.exitExists L name = true → s'.exitExists L name = true) :
    Consistent L s' := by
  have hcurrent : s'.current = s.current := by
    unfold State.current
    rw [hexit]
  unfold Consistent at hs ⊢
  rw [hcurrent, hroute]
  split
  · next hlocal => rwa [if_pos hlocal] at hs
  · next hlocal =>
    rw [if_neg hlocal] at hs
    exact ⟨hs.1, hfiles _ hs.2.1, hs.2.2⟩

/-! ## The restart of the router -/

/-- The helper gets through and sets the route of `smart`, whose type it reads as `etype`. -/
def Answers.routes (L : Linux F) (etype : Text) (a : Answers) : Bool :=
  a.ruled && (a.shown || !(etype == wireguard) || a.upped) && L.deviceUp smart a.up && a.replaced

/-- Whether the route of `smart` is there after a restart, given whether it was there before. -/
def Restart.keeps (L : Linux F) (etype : Text) (kept : Bool) (r : Restart) : Bool :=
  (kept && !r.stops) || r.start.post.any (·.routes L etype)

/-- **`RulesAnswers.reroutes`** — the route of `smart` is there in the end: after the first restart,
or, where that fails, after the second, which finds the old type in place. -/
def RulesAnswers.reroutes (L : Linux F) (etype : Text) (a : RulesAnswers) : Bool :=
  let kept := a.first.keeps L (lit "router") true
  if a.first.start.ok then kept else a.second.keeps L etype kept

theorem execStartPost_smart (hcurrent : s.current = smart) (a : Answers) :
    execStartPost L a s =
      if a.routes L (s.helperType L smart) then { s with route := some (iface smart) } else s := by
  have hactive : ¬ (s.current = [] ∨ s.current = localName) := by
    rw [hcurrent]
    decide
  unfold execStartPost applyExit Answers.routes
  cases a.ruled with
  | false => rfl
  | true =>
    rw [hcurrent] at hactive ⊢
    cases a.shown with
    | true => simp [hactive, apply_ite Prod.fst]
    | false =>
      by_cases hwg : s.helperType L smart = wireguard
      · simp [hactive, hwg, apply_ite Prod.fst]
      · simp [hactive, hwg, apply_ite Prod.fst]

/-- A restart changes the route at most, and leaves that of `smart` in place as `keeps` says. -/
theorem restartSmart_spec (hcurrent : s.current = smart) (r : Restart) :
    ∃ route, (restartSmart L r s).1 = { s with route := route } ∧
      (route = some (iface smart) ↔
        r.keeps L (s.helperType L smart) (decide (s.route = some (iface smart))) = true) := by
  -- what the stop leaves
  have hstop : ∃ route, (if r.stops then s.lose (iface smart) else s) = { s with route := route } ∧
      (route = some (iface smart) ↔
        (decide (s.route = some (iface smart)) && !r.stops) = true) := by
    cases r.stops with
    | false => exact ⟨s.route, rfl, by simp⟩
    | true =>
      refine ⟨if s.route = some (iface smart) then none else s.route, lose_eq s _, ?_⟩
      split <;> simp_all
  obtain ⟨route, hroute, hkept⟩ := hstop
  unfold restartSmart startEngine Restart.keeps
  rw [hroute]
  cases r.start.post with
  | none => exact ⟨route, rfl, by simp [hkept]⟩
  | some a =>
    have hpost := execStartPost_smart (L := L) (s := { s with route := route }) hcurrent a
    dsimp only
    rw [hpost]
    have htype : ({ s with route := route } : State F).helperType L smart = s.helperType L smart := rfl
    rw [htype, Option.any_some]
    cases a.routes L (s.helperType L smart) with
    | true => exact ⟨some (iface smart), rfl, by simp⟩
    | false => exact ⟨route, rfl, by simp [hkept]⟩

/-- With `smart` selected, consistency is a matter of the route. -/
theorem consistent_smart_iff (hcurrent : s.current = smart) (hknown : s.exitExists L smart = true) :
    Consistent L s ↔ s.route = some (iface smart) := by
  have hnamed : smart ≠ [] ∧ smart ≠ localName := by decide
  rw [Consistent, hcurrent, if_neg hnamed.2]
  simp [hnamed.1, hknown]

section Files

variable [DecidableEq F]

theorem exitExists_remove (s : State F) (name current : Text) :
    (s.remove L name).exitExists L current = true ↔ ¬ s.CoveredBy L current name := by
  unfold State.exitExists State.remove State.CoveredBy
  by_cases htype : L.typePath current = L.typePath name <;>
    by_cases hconf : L.confPath current = L.confPath name <;>
    simp only [htype, hconf, Function.update_self, ne_eq, not_false_eq_true, Function.update_of_ne,
      Option.isSome_none, Option.isSome_iff_ne_none, Bool.or_eq_true, Bool.or_false, Bool.false_or,
      implies_true, true_and, and_true] <;>
    tauto

/-- `del_exit` gets past its checks. -/
def State.Deletes (L : Linux F) (s : State F) (name : Text) : Prop :=
  name ≠ [] ∧ name ≠ localName ∧ s.exitExists L name = true

/-- Deleting another exit leaves the selection alone, up to the files it takes. -/
theorem delExit_other (hs : Consistent L s) {name : Text} (hdel : s.Deletes L name)
    (hother : s.current ≠ name) (a : SetAnswers) (downs : Bool) :
    (delExit L name a downs s).1 = s.remove L name := by
  have hroute : s.route ≠ some (iface name) := by
    intro heq
    unfold Consistent at hs
    split at hs
    · rw [hs] at heq
      nomatch heq
    · rw [hs.2.2] at heq
      exact hother (iface_inj (Option.some.inj heq))
  unfold delExit
  rw [if_neg (by simp [hdel.1, hdel.2.1, hdel.2.2])]
  simp [hother, exitDown_eq_self hroute]

/-- Deleting the selected exit selects `local` first, if that works. -/
theorem delExit_current (hs : Consistent L s) {name : Text} (hdel : s.Deletes L name)
    (hcurrent : s.current = name) (a : SetAnswers) (downs : Bool) :
    (delExit L name a downs s).1 = s.deselect.remove L name ∨
      (delExit L name a downs s).1 = s := by
  unfold delExit
  rw [if_neg (by simp [hdel.1, hdel.2.1, hdel.2.2])]
  simp only [hcurrent, if_true]
  rcases setExit_cases hs localName a with ⟨-, heq⟩ | ⟨hsel, -⟩ | ⟨-, heq⟩
  · have hdown : exitDown L name downs s.deselect = s.deselect :=
      exitDown_eq_self (by simp [State.deselect]) _
    left
    simp [heq, hdown]
  · exact absurd rfl hsel.named.2
  · right
    simp [heq]

theorem consistent_delExit_iff (hs : Consistent L s) (name : Text) (a : SetAnswers) (downs : Bool) :
    Consistent L (delExit L name a downs s).1 ↔
      (s.Deletes L name → s.current ≠ name → s.current ≠ localName →
        ¬ s.CoveredBy L s.current name) := by
  by_cases hdel : s.Deletes L name
  case neg =>
    have hsame : (delExit L name a downs s).1 = s := by
      unfold delExit
      rw [if_pos (by by_contra hnot; exact hdel (by simpa [State.Deletes] using hnot))]
    rw [hsame]
    exact iff_of_true hs fun h => absurd h hdel
  by_cases hcurrent : s.current = name
  · refine iff_of_true ?_ fun _ hother => absurd hcurrent hother
    rcases delExit_current hs hdel hcurrent a downs with heq | heq
    · rw [heq]
      exact consistent_of_local (current_deselect (s := s)) rfl
    · rw [heq]
      exact hs
  rw [delExit_other hs hdel hcurrent]
  have hsame : (s.remove L name).current = s.current := rfl
  unfold Consistent at hs ⊢
  rw [hsame]
  by_cases hlocal : s.current = localName
  · rw [if_pos hlocal] at hs ⊢
    exact iff_of_true hs fun _ _ hne => absurd hlocal hne
  · rw [if_neg hlocal] at hs ⊢
    rw [exitExists_remove]
    constructor
    · intro h _ _ _
      exact h.2.1
    · intro h
      exact ⟨hs.1, h hdel hcurrent hlocal, hs.2.2⟩

theorem exitExists_putType {t other name : Text} (h : s.exitExists L name = true) :
    (s.putType L other (some t)).exitExists L name = true := by
  unfold State.exitExists State.putType at *
  by_cases hpath : L.typePath name = L.typePath other
  · simp [hpath]
  · simpa [hpath] using h

theorem consistent_addExit (hs : Consistent L s) (name : Text) (source : Source) :
    Consistent L (addExit L name source s).1 := by
  unfold addExit
  split
  · exact hs
  · split
    · split
      · split
        · exact hs.of_files rfl rfl fun _ h => exitExists_putType h
        · exact hs
      · exact hs
    · split
      · refine hs.of_files rfl rfl fun other h => ?_
        by_cases hpath : L.typePath other = L.typePath name
        · simp [State.exitExists, hpath]
        · by_cases hconf : L.confPath other = L.confPath name
          · simp [State.exitExists, hconf]
          · simpa [State.exitExists, hpath, hconf] using h
      · exact hs

theorem helperType_putType (s : State F) (t : Option Text) :
    (s.putType L smart t).helperType L smart = t.getD wireguard := by
  simp [State.helperType, State.putType]

/-- The two restarts, one after the other. -/
theorem consistent_reloadSmart_iff (hcurrent : s.current = smart)
    (hknown : s.exitExists L smart = true) (hroute : s.route = some (iface smart))
    (htype : s.helperType L smart = lit "router") (a : RulesAnswers) {before : Option Text}
    (hbefore : (s.putType L smart before).exitExists L smart = true) :
    Consistent L (reloadSmart L a before s).1 ↔ a.reroutes L (before.getD wireguard) = true := by
  obtain ⟨route, hfirst, hkept⟩ := restartSmart_spec (L := L) hcurrent a.first
  rw [htype, decide_eq_true hroute] at hkept
  have hok : (restartSmart L a.first s).2 = a.first.start.ok := by
    unfold restartSmart startEngine
    split <;> rfl
  unfold reloadSmart RulesAnswers.reroutes
  dsimp only
  rw [hfirst, hok]
  cases a.first.start.ok with
  | true =>
    rw [if_pos rfl, if_pos rfl, ← hkept]
    exact consistent_smart_iff hcurrent hknown
  | false =>
    rw [if_neg Bool.false_ne_true, if_neg Bool.false_ne_true]
    -- the second restart finds the old type and the route that the first has left
    let s' : State F := ({ s with route := route } : State F).putType L smart before
    obtain ⟨route', hsecond, hkept'⟩ := restartSmart_spec (L := L) (s := s') hcurrent a.second
    have hleft : decide (s'.route = some (iface smart)) = a.first.keeps L (lit "router") true := by
      rw [Bool.eq_iff_iff, decide_eq_true_eq]
      exact hkept
    rw [helperType_putType, hleft] at hkept'
    rw [hsecond, ← hkept']
    exact consistent_smart_iff hcurrent hbefore

theorem consistent_setRules_iff (hs : Consistent L s) (a : RulesAnswers) :
    Consistent L (setRules L a s).1 ↔
      (a.builds = true → a.commits = true → s.current = smart →
        a.reroutes L (s.helperType L smart) = true) := by
  by_cases hgo : a.builds = true ∧ a.commits = true
  case neg =>
    have hsame : (setRules L a s).1 = s := by
      unfold setRules
      cases hbuilds : a.builds <;> cases hcommits : a.commits <;> simp_all
    rw [hsame]
    exact iff_of_true hs fun hbuilds hcommits => absurd ⟨hbuilds, hcommits⟩ hgo
  unfold setRules
  simp only [hgo.1, hgo.2, Bool.not_true, Bool.false_eq_true, if_false, forall_const]
  by_cases hcurrent : (s.putType L smart (some (lit "router"))).current = smart
  case neg =>
    rw [if_pos hcurrent]
    refine iff_of_true (hs.of_files rfl rfl fun _ h => exitExists_putType h) ?_
    intro hsmart
    exact absurd hsmart hcurrent
  rw [if_neg (not_not.mpr hcurrent)]
  have hsmart : s.current = smart := hcurrent
  have hnamed : smart ≠ localName := by decide
  rw [Consistent, hsmart, if_neg hnamed] at hs
  have hrestored : ((s.putType L smart (some (lit "router"))).putType L smart
      (s.types (L.typePath smart))).exitExists L smart = true := by
    have hknown := hs.2.1
    unfold State.exitExists State.putType at *
    simpa using hknown
  simp only [hsmart, forall_const]
  exact consistent_reloadSmart_iff hcurrent (exitExists_putType hs.2.1) hs.2.2
    (helperType_putType s _) a hrestored

/-! ## Runs that stay consistent -/

/-- **`Holds`** — the command leaves a consistent state, and as a `set_exit` that fails it leaves the
file and the route as they were. -/
def Holds (L : Linux F) (s : State F) (c : Command) : Prop :=
  Consistent L (exec L c s).1 ∧
    ∀ name a, c = .setExit name a → (exec L c s).2 = false →
      (exec L c s).1.currentExit = s.currentExit ∧ (exec L c s).1.route = s.route

/-- **`Safe`** — the command is none of the three that pull the places apart. -/
def Safe (L : Linux F) (s : State F) : Command → Prop
  | .setExit name a => s.Selects L name a → isEchoOption name = false
  | .delExit name _ _ => s.Deletes L name → s.current ≠ name → s.current ≠ localName →
      ¬ s.CoveredBy L s.current name
  | .addExit _ _ => True
  | .setRules a => a.builds = true → a.commits = true → s.current = smart →
      a.reroutes L (s.helperType L smart) = true
  | .applyExit _ _ => True

/-- One step: exactly the safe commands keep a consistent state consistent. -/
theorem holds_iff (hs : Consistent L s) (c : Command) : Holds L s c ↔ Safe L s c := by
  have hkeeps : Consistent L (exec L c s).1 ↔ Safe L s c := by
    cases c with
    | setExit name a => exact consistent_setExit_iff hs name a
    | delExit name a downs => exact consistent_delExit_iff hs name a downs
    | addExit name source => exact iff_of_true (consistent_addExit hs name source) trivial
    | setRules a => exact consistent_setRules_iff hs a
    | applyExit a start =>
      refine iff_of_true ?_ trivial
      show Consistent L (applyExit L a _ s).1
      rw [applyExit_eq_self hs a]
      · exact hs
      · cases start with
        | none => rfl
        | some st => exact startEngine_eq_self hs st
  constructor
  · intro h
    exact hkeeps.mp h.1
  · intro h
    refine ⟨hkeeps.mpr h, ?_⟩
    rintro name a rfl hfail
    have hsame : (exec L (.setExit name a) s).1 = s := setExit_failed hs hfail
    rw [hsame]
    exact ⟨rfl, rfl⟩

end Files

end Consistency

/-! ## An exit named `-n` -/

/-- Every name has its own files, and ASCII letters, digits and three other characters name devices
and exits. -/
def plainLinux : Linux Text where
  typePath := id
  confPath := id
  validDevice name := name ≠ [] && name.length < 16 && name.all fun c => c.isAlphanum || c ∈ lit "_-."
  nameChar c := c.isAlphanum || c == '_' || c == '-'
  typePath_inj _ _ _ _ h := h
  confPath_inj _ _ _ _ h := h
  validDevice_newline name h hmem := by
    have hall := (Bool.and_eq_true_iff.mp h).2
    exact absurd (List.all_eq_true.mp hall _ hmem) (by decide)

/-- Every tool works. -/
def works : SetAnswers where
  ruled := true
  shown := false
  wg := true
  mihomo := true
  start := ⟨true, none⟩
  up := true
  replaced := true
  downs := true

end ProxyGateway.Exits.Selection
