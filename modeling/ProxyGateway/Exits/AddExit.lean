/-
# ProxyGateway.Exits.AddExit — `add_exit`, statement by statement

The function takes a proxy URI or a WireGuard configuration.  It looks for a line with a URI first, by a
pipeline in an assignment: `uri="$(grep … | head -n1 | tr … | sed …)"`.  Where no line matches, `grep` has
status 1, which `pipefail` makes the status of the pipeline and thereby of the assignment, and `set -e`
ends the script there, without a word.  The three assignments of the same kind behind it, for the
credentials, end in `|| true`.

So the part for WireGuard configurations is never reached: no configuration can be added
(`addExit_never`).
-/
import ProxyGateway.Lang.Errexit
import ProxyGateway.Exits.WireGuard
import ProxyGateway.Exits.Selection

namespace ProxyGateway.Exits.AddExit

open ProxyGateway.Lang ProxyGateway.Exits.WireGuard
open ProxyGateway.Exits.Selection (Linux localName smart wireguard uriType)

/-! ## Lines of the payload -/

section Lines

variable (P : WireGuard.Locale)

/-- A line that starts with one of the words, in any case, behind spaces. -/
def startsWithWord (words : List Text) (line : Text) : Bool :=
  words.any fun w => w.isPrefixOf (fold (line.dropWhile P.space))

/-- The schemes that `add_exit` looks for. -/
def uriSchemes : List Text :=
  [lit "ss://", lit "vmess://", lit "trojan://", lit "vless://", lit "hysteria2://", lit "hy2://",
    lit "tuic://", lit "anytls://", lit "socks5h://", lit "socks5://", lit "socks://", lit "http://",
    lit "https://"]

/-- `^[[:space:]]*(ss|vmess|…|https)://` -/
def uriLine : Text → Bool := startsWithWord P uriSchemes

/-- `^[[:space:]]*(a|b)[[:space:]]*[:=]` -/
def settingLine (keys : List Text) (line : Text) : Bool :=
  let rest := line.dropWhile P.space
  keys.any fun k => fold (rest.take k.length) == k &&
    ((rest.drop k.length).dropWhile P.space).head?.any fun c => c == ':' || c == '='

/-- `s/^[[:space:]]*[^:=]+[:=][[:space:]]*//` -/
def settingValue (line : Text) : Text :=
  let isMark := fun c => c == ':' || c == '='
  match line.dropWhile (!isMark ·) with
  | _ :: value => if (line.takeWhile (!isMark ·)) = [] then line else value.dropWhile P.space
  | [] => line

/-- `tr -d '\r'` -/
def dropReturns (line : Text) : Text := line.filter (· != '\r')

/-- What `$(…)` makes of the lines of a pipeline. -/
def substituted (lines : List Text) : Text := captured (lines.flatMap (· ++ ['\n']))

end Lines

/-! ## The function -/

/-- The commands that act on files, and the other tools. -/
inductive Tool where
  | mkdirWg | chmodWg | mkdirExits | chmodExits | mktemp | readPayload | rmPayload
  | ensureMihomo | installUnit | installYaml | rmCandidate | writeType | sedTable | installConf
  deriving DecidableEq, Repr

/-- What `add_exit` runs on.  `fails` is the status of a tool. -/
structure Tools (F : Type) where
  linux : Linux F
  locale : WireGuard.Locale
  yamlPath : Text → F
  fails : Tool → Nat
  /-- a file that is given as the second argument, and the standard input -/
  fileAt : Text → Option (List Text)
  stdin : List Text
  /-- `mihomo-exit-config.py` is there -/
  hasGenerator : Bool
  /-- what it makes of name, URI, user, password and remote-DNS setting -/
  generate : Text → Text → Text → Text → Text → Option (List Text)
  accepts : List Text → Bool
  hasWgQuick : Bool

/-- The files of the exits, and the variables of the function. -/
structure World (F : Type) where
  types : F → Option Text
  confs : F → Option (List Text)
  yamls : F → Option (List Text)
  tmp : Option (List Text)
  uri : Text
  user : Text
  password : Text
  remoteDns : Text
  candidate : Option (List Text)
  messages : List Text

abbrev Script (F : Type) := Cmd (World F) Empty

section Script

variable {F : Type} (T : Tools F)

/-- `err`, `ok` and `info` -/
def say (text : Text) : Script F := .assign fun w => { w with messages := w.messages ++ [text] }

/-- A tool, with what it does if it succeeds. -/
def Tools.run (tool : Tool) (f : World F → World F) : Script F :=
  .simple fun w => if T.fails tool = 0 then (0, f w) else (T.fails tool, w)

/-- A message, and `exit 1`. -/
def refuse (text : Text) : Script F := .block [say text, .exit 1]

/-- The lines of `$tmp`. -/
def World.payload (w : World F) : List Text := w.tmp.getD []

/-- What is written to `$tmp`: the file, the argument itself or the standard input. -/
def Tools.payload (src : Text) : List Text :=
  if src = [] then T.stdin
  else match T.fileAt src with
    | some lines => lines
    | none => src.splitOn '\n'

/-- `uri="$(grep -iE … | head -n1 | tr -d '\r' | sed …)"` -/
def Tools.findUri : Script F :=
  .simple fun w =>
    let found := pipeline [grep (uriLine T.locale), headOne, editLines dropReturns,
      editLines T.locale.trim] w.payload
    (found.1, { w with uri := substituted found.2 })

/-- `$(grep -iE … | head -n1 | sed … | tr -d '\r' || true)` -/
def Tools.setting (keys : List Text) (lines : List Text) : Text :=
  substituted (pipeline [grep (settingLine T.locale keys), headOne, editLines (settingValue T.locale),
    editLines dropReturns] lines).2

/-- The type by the scheme. -/
def World.uriType (w : World F) : Text := (Selection.uriType w.uri).getD []

/-- What is said at the end. -/
def added (name type : Text) : Script F :=
  .block [say (lit "Exit '" ++ name ++ lit "' added (type: " ++ type ++ lit ")"),
    say (lit "Activate it with: --set-exit " ++ name)]

/-- The directories, and the payload in `$tmp`. -/
def Tools.prepare (name src : Text) : List (Script F) :=
  [.and (.test fun _ => name = []) (refuse (lit "Usage: --add-exit <name> [wg.conf | proxy URI]")),
    .or (.test fun _ => T.linux.validName name)
      (refuse (lit "Exit name must be 1-16 letters/digits/Chinese characters/_/-")),
    .and (.test fun _ => name = localName ∨ name = smart)
      (refuse (lit "'" ++ name ++ lit "' is a reserved exit name")),
    T.run .mkdirWg id, T.run .chmodWg id, T.run .mkdirExits id, T.run .chmodExits id,
    T.run .mktemp fun w => { w with tmp := some [] },
    T.run .readPayload fun w => { w with tmp := some (T.payload src) }]

variable [DecidableEq F]

/-- The part for a proxy URI. -/
def Tools.addUri (name : Text) : Script F :=
  .block [
    .assign fun w => { w with
      user := T.setting [lit "user", lit "username"] w.payload
      password := T.setting [lit "pass", lit "password"] w.payload
      remoteDns := T.setting [lit "remotedns", lit "remote-dns"] w.payload },
    T.run .rmPayload fun w => { w with tmp := none },
    .or (.test fun _ => T.hasGenerator) (refuse (lit "Config generator missing")),
    .or (T.run .ensureMihomo id) (.exit 1),
    .ite (.not (.simple fun w => match T.generate name w.uri w.user w.password w.remoteDns with
        | some yaml => (0, { w with candidate := some yaml })
        | none => (1, w)))
      (.block [say (lit "Failed to parse URI"), T.run .rmCandidate id, .exit 1]) .nop,
    T.run .installUnit id,
    .ite (.not (.test fun w => T.accepts (w.candidate.getD [])))
      (.block [say (lit "mihomo rejected the generated config:"), T.run .rmCandidate id, .exit 1]) .nop,
    T.run .installYaml fun w => { w with yamls := Function.update w.yamls (T.yamlPath name) w.candidate },
    T.run .rmCandidate fun w => { w with candidate := none },
    T.run .writeType fun w => { w with
      types := Function.update w.types (T.linux.typePath name) (some w.uriType) },
    -- the messages name the type that has just been written
    .simple fun w => (0, { w with messages := w.messages ++
      [lit "Exit '" ++ name ++ lit "' added (type: " ++ w.uriType ++ lit ")",
        lit "Activate it with: --set-exit " ++ name] }),
    .ret 0]

/-- `grep -qi … "$tmp" || { err …; rm -f "$tmp"; exit 1; }` -/
def Tools.require (p : World F → Bool) (text : Text) : Script F :=
  .or (.test p) (.block [say text, T.run .rmPayload id, .exit 1])

/-- The part for a WireGuard configuration. -/
def Tools.addWireguard (name : Text) : Script F :=
  .block [
    T.require (fun w => w.payload.any (grepSection (lit "[Interface]")))
      (lit "Not a URI and not a WireGuard config (no proxy URI or [Interface])"),
    T.require (fun w => w.payload.any (grepSection (lit "[Peer]")))
      (lit "Invalid WireGuard config (missing [Peer])"),
    T.require (fun _ => T.hasWgQuick) (lit "wireguard-tools (wg-quick) is not installed"),
    .ite (.test fun w => w.payload.any T.locale.grepTable)
      (T.run .sedTable fun w => { w with tmp := w.tmp.map T.locale.replaceTable })
      (T.run .sedTable fun w => { w with tmp := w.tmp.map insertTable }),
    T.run .installConf fun w => { w with
      confs := Function.update w.confs (T.linux.confPath name) w.tmp },
    T.run .rmPayload fun w => { w with tmp := none },
    T.run .writeType fun w => { w with
      types := Function.update w.types (T.linux.typePath name) (some wireguard) },
    added name wireguard]

/-- **`add_exit`** -/
def Tools.addExit (name src : Text) : Script F :=
  .seq (.block (T.prepare name src)) (.seq T.findUri
    (.seq (.ite (.test fun w => w.uri ≠ []) (T.addUri name) .nop) (T.addWireguard name)))

/-- `install.sh --add-exit`: the status of the script, and the world it leaves. -/
def Tools.addExitStatus (name src : Text) (w : World F) : Nat × World F :=
  let r := (Cmd.call (T.addExit name src)).eval false w
  (Cmd.exitStatus r.1, r.2)

/-- The command completes with the rewritten configuration stored and the type recorded. -/
structure Adds (name src : Text) (w : World F) : Prop where
  status : (T.addExitStatus name src w).1 = 0
  conf : (T.addExitStatus name src w).2.confs (T.linux.confPath name) =
    some (T.locale.rewriteTable (T.payload src))
  type : (T.addExitStatus name src w).2.types (T.linux.typePath name) = some wireguard

end Script

/-! ## Without a URI -/

section NoUri

variable {F : Type} {T : Tools F} {w₀ : World F}

/-- No file of an exit has changed. -/
structure Untouched (w₀ w : World F) : Prop where
  types : w.types = w₀.types
  confs : w.confs = w₀.confs
  yamls : w.yamls = w₀.yamls

theorem run_keeps {tool : Tool} {f : World F → World F}
    (hf : ∀ w, Untouched w₀ w → Untouched w₀ (f w)) : (T.run tool f).keeps (Untouched w₀) := by
  intro w hw
  simp only
  split
  · exact hf w hw
  · exact hw

/-- The script ends in a failure, with the files as they were. -/
def Failed (w₀ : World F) (o : Outcome) (w : World F) : Prop :=
  Cmd.exitStatus o ≠ 0 ∧ Untouched w₀ w

/-- A command before the search for the URI. -/
theorem goesOn {Q : Outcome → World F → Prop} (hq : ∀ n w, n ≠ 0 → Untouched w₀ w → Q (.exit n) w)
    {c : Script F} (hf : c.fatal false false) (hk : c.keeps (Untouched w₀)) :
    Triple false (Untouched w₀) c (onStatus (fun _ => Untouched w₀) Q) :=
  Triple.of_fatal hf hk hq

theorem refuse_fatal (text : Text) : (refuse text : Script F).fatal false false :=
  ⟨trivial, Nat.one_ne_zero⟩

theorem refuse_keeps (text : Text) : (refuse text : Script F).keeps (Untouched w₀) :=
  ⟨fun _ hw => ⟨hw.types, hw.confs, hw.yamls⟩, trivial⟩

/-- The payload gets to `$tmp`, if the script gets that far. -/
theorem prepare_spec (name src : Text) :
    Triple false (Untouched w₀) (.block (T.prepare name src))
      (onStatus (fun _ w => Untouched w₀ w ∧ w.payload = T.payload src) (Failed w₀)) := by
  have hgo : ∀ {c : Script F}, c.fatal false false → c.keeps (Untouched w₀) →
      Triple false (Untouched w₀) c (onStatus (fun _ => Untouched w₀)
        (onStatus (fun _ w => Untouched w₀ w ∧ w.payload = T.payload src) (Failed w₀))) :=
    goesOn fun _ _ hn hw => ⟨hn, hw⟩
  have hguard : ∀ (p : World F → Bool) text, Triple false (Untouched w₀)
      (.and (.test p) (refuse text)) _ := fun p text =>
    hgo ⟨trivial, refuse_fatal text⟩ ⟨Cmd.test_keeps _, refuse_keeps text⟩
  have hor : ∀ (p : World F → Bool) text, Triple false (Untouched w₀)
      (.or (.test p) (refuse text)) _ := fun p text =>
    hgo ⟨trivial, refuse_fatal text⟩ ⟨Cmd.test_keeps _, refuse_keeps text⟩
  have hrun : ∀ tool, Triple false (Untouched w₀) (T.run tool id) _ := fun tool =>
    hgo trivial (run_keeps fun _ hw => hw)
  have hmktemp : Triple false (Untouched w₀) (T.run .mktemp fun w => { w with tmp := some [] }) _ :=
    hgo trivial (run_keeps fun _ hw => ⟨hw.types, hw.confs, hw.yamls⟩)
  have hread : Triple false (Untouched w₀)
      (T.run .readPayload fun w => { w with tmp := some (T.payload src) })
      (onStatus (fun _ w => Untouched w₀ w ∧ w.payload = T.payload src) (Failed w₀)) :=
    Triple.tool (fun _ _ hw => ⟨⟨hw.types, hw.confs, hw.yamls⟩, rfl⟩) fun hn _ hw => ⟨hn, hw⟩
  exact Triple.seq (hguard _ _) <| Triple.seq (hor _ _) <| Triple.seq (hguard _ _) <|
    Triple.seq (hrun _) <| Triple.seq (hrun _) <| Triple.seq (hrun _) <| Triple.seq (hrun _) <|
    Triple.seq hmktemp hread

/-- `grep` finds nothing, and that ends the script. -/
theorem findUri_spec {lines : List Text} (hno : ∀ line ∈ lines, uriLine T.locale line = false)
    {R : World F → Prop} :
    Triple false (fun w => Untouched w₀ w ∧ w.payload = lines) T.findUri
      (onStatus (fun _ => R) (Failed w₀)) := by
  refine Triple.strict ?_
  rintro w ⟨hw, hpayload⟩
  have hfails := pipeline_fails (grep_fails hno) [headOne, editLines dropReturns, editLines T.locale.trim]
  rw [← hpayload] at hfails
  rw [if_neg hfails]
  exact ⟨hfails, hw.types, hw.confs, hw.yamls⟩

variable [DecidableEq F]

/-- **`addExit_fails`** — without a line with a URI the command fails and stores nothing. -/
theorem addExit_fails (T : Tools F) (name src : Text)
    (hno : ∀ line ∈ T.payload src, uriLine T.locale line = false) (w : World F) :
    (T.addExitStatus name src w).1 ≠ 0 ∧ Untouched w (T.addExitStatus name src w).2 := by
  have hbody : Triple false (Untouched w) (T.addExit name src) (Failed w) :=
    Triple.seq (prepare_spec name src) (Triple.seq (R := fun _ => False) (findUri_spec hno) fun _ h => h.elim)
  obtain ⟨hstatus, hfiles⟩ := hbody w ⟨rfl, rfl, rfl⟩
  rw [Tools.addExitStatus]
  simp only [Cmd.eval]
  rw [Cmd.exitStatus_returned]
  exact ⟨hstatus, hfiles⟩

/-- **`addExit_never`** — so it never adds a WireGuard configuration. -/
theorem addExit_never (T : Tools F) (name src : Text)
    (hno : ∀ line ∈ T.payload src, uriLine T.locale line = false) (w : World F) :
    ¬ Adds T name src w := fun h => (addExit_fails T name src hno w).1 h.status

end NoUri

/-! ## A usual configuration -/

/-- Every tool works, and the file `wg.conf` has a configuration. -/
def plainTools : Tools Text where
  linux := Selection.plainLinux
  locale := asciiSpace
  yamlPath := id
  fails _ := 0
  fileAt src := if src = lit "wg.conf" then some usualConf else none
  stdin := []
  hasGenerator := true
  generate _ _ _ _ _ := none
  accepts _ := true
  hasWgQuick := true

/-- No exit yet. -/
def noExits : World Text where
  types _ := none
  confs _ := none
  yamls _ := none
  tmp := none
  uri := []
  user := []
  password := []
  remoteDns := []
  candidate := none
  messages := []

theorem usualConf_noUri : ∀ line ∈ plainTools.payload (lit "wg.conf"),
    uriLine plainTools.locale line = false := by decide

theorem usualConf_never :
    (∀ line ∈ plainTools.payload (lit "wg.conf"), uriLine plainTools.locale line = false) ∧
      ¬ Adds plainTools (lit "wg0") (lit "wg.conf") noExits :=
  ⟨usualConf_noUri, addExit_never plainTools _ _ usualConf_noUri noExits⟩

theorem usualConf_not_added :
    ¬ ∀ (T : Tools Text) (name src : Text) (w : World Text), T.linux.validName name = true →
      (∀ tool, T.fails tool = 0) → T.hasWgQuick = true →
      (∀ line ∈ T.payload src, uriLine T.locale line = false) →
      (T.payload src).any (grepSection (lit "[Interface]")) = true →
      (T.payload src).any (grepSection (lit "[Peer]")) = true → Adds T name src w := by
  intro hclaim
  have hadds := hclaim plainTools (lit "wg0") (lit "wg.conf") noExits (by decide) (fun _ => rfl) rfl
    usualConf_noUri (by decide) (by decide)
  have hstatus : (plainTools.addExitStatus (lit "wg0") (lit "wg.conf") noExits).1 = 1 := by decide
  exact absurd (hstatus.symm.trans hadds.status) Nat.one_ne_zero

end ProxyGateway.Exits.AddExit
