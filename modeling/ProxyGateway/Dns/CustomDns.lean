/-
# ProxyGateway.Dns.CustomDns — `set_custom_dns` and the four readers of its lists

The command writes the two lists of upstreams into twelve files, splices them into the resolver block
of `sniproxy.conf`, edits the unit of the race proxy with `sed` and has the configuration of dnsdist
rendered anew.  Each step that it expects to fail is guarded and rolled back.

The `sed` script stands in double quotes with `\$` for the directory of the program, so `sed` gets the
name of the variable with its braces instead of its value.  To an extended regular expression that is
an anchor with an interval after it, which `regcomp` refuses.  The command is not guarded: where the
unit exists, which is after every installation, `set -e` ends the script there, with the files written
and the unit as it was (`setCustomDns_never`).
-/
import ProxyGateway.Lang.Errexit
import ProxyGateway.Lang.Ere

namespace ProxyGateway.Dns

open ProxyGateway.Lang

/-! ## Lists of upstreams -/

/-- `read -r -a` of a here-string. -/
def words (input : Text) : List Text :=
  ((before '\n' input).splitOnP fun c => c == ' ' || c == '\t').filter (· ≠ [])

/-- `${input//,/ }` -/
def commasToBlanks (input : Text) : Text := input.map fun c => if c = ',' then ' ' else c

def joinWith (sep : Char) (items : List Text) : Text := [sep].intercalate items

/-- What the command relies on: Python's `ipaddress.ip_address`, the test for a port in
`normalize_dns_upstreams`, its own settings, and what the tools answer. -/
structure DnsTools where
  isIp : Text → Bool
  isPort : Text → Bool
  baseDir : Text
  defaultRemoteDns : List Text
  defaultLocalDns : List Text
  /-- the remote servers that `update-rules.sh` renders from `.remote_dns` -/
  rendered : Text → Text
  /-- what `sed` makes of a file with a script that it takes -/
  edited : Text → Text → Text → Text
  updateRules : Nat
  restartDnsdist : Nat
  daemonReload : Nat

section Lists

variable (T : DnsTools)

/-- `${item%:*}` and `${item##*:}` -/
def hostOf (item : Text) : Text := (item.rdropWhile (· != ':')).dropLast

def portOf (item : Text) : Text := item.rtakeWhile (· != ':')

/-- One item of `normalize_dns_upstreams`. -/
def DnsTools.normalizeItem (item : Text) : Option Text :=
  let whole := !item.contains ':' || T.isIp item
  let host := if whole then item else hostOf item
  let port := if whole then lit "53" else portOf item
  if lit "://" <:+: item then none
  else if T.isPort port && T.isIp host then
    some (if port = lit "53" then host else host ++ ':' :: port)
  else none

/-- **`normalize_dns_upstreams`**; none where it refuses the list. -/
def DnsTools.normalizeDnsUpstreams (input : Text) : Option Text :=
  match (words (commasToBlanks input)).mapM T.normalizeItem with
  | some [] => none
  | some items => some (joinWith ' ' items)
  | none => none

/-- One item of `dns_upstreams_with_ports`. -/
def DnsTools.itemWithPort (item : Text) : Text :=
  if item.contains ':' && !T.isIp item then
    if (hostOf item).contains ':' then '[' :: hostOf item ++ lit "]:" ++ portOf item else item
  else if 2 ≤ item.count ':' then '[' :: item ++ lit "]:53"
  else item ++ lit ":53"

/-- **`dns_upstreams_with_ports`** -/
def DnsTools.dnsUpstreamsWithPorts (input : Text) : Text :=
  joinWith ',' ((words input).map T.itemWithPort)

/-- `^[0-9A-Fa-f:.]+$` -/
def isAddressText (item : Text) : Bool :=
  item ≠ [] && item.all fun c => c.isDigit || c ∈ lit "ABCDEFabcdef:."

/-- **`render_sniproxy_dns_nameservers`** -/
def DnsTools.nameservers (input : Text) : List Text :=
  let items := if input = [] then T.defaultRemoteDns else words (commasToBlanks input)
  (items.filter isAddressText).map (lit "    nameserver " ++ ·)

end Lists

/-! ## `sniproxy.conf` -/

/-- `f.read().splitlines()` -/
def fileLines (conf : Text) : List Text :=
  let lines := splitlines conf
  if lines.getLast? = some [] then lines.dropLast else lines

/-- The lines of the resolver block. -/
def resolverBlock (nameservers : List Text) : List Text :=
  lit "resolver \x7b" :: nameservers ++ [lit "    mode ipv4_only", lit "\x7d"]

/-- The Python part of `rewrite_sniproxy_dns`; none where there is no resolver block. -/
def rewriteResolver (nameservers : List Text) (conf : Text) : Option Text :=
  let lines := fileLines conf
  match lines.findIdx? (strip · = lit "resolver \x7b") with
  | none => none
  | some start =>
    match (lines.drop (start + 1)).findIdx? (strip · = lit "\x7d") with
    | none => none
    | some len =>
      some (joinWith '\n' (lines.take start ++ resolverBlock nameservers ++
        lines.drop (start + len + 2)) ++ ['\n'])

/-! ## The unit of the race proxy -/

/-- The command line of the race proxy, up to its upstreams. -/
def execStart (baseDir upstreams : Text) : Text :=
  lit "ExecStart=" ++ baseDir ++
    lit "/bin/china-dns-race-proxy -l 127.0.0.1:5301 -upstreams " ++ upstreams

/-- The unit that **`install_china_dns_race_proxy`** writes. -/
def raceProxyUnit (baseDir upstreams : Text) : Text :=
  lit "[Unit]\nDescription=China DNS race proxy\nAfter=network.target\nBefore=dnsdist.service\n\n" ++
  lit "[Service]\nType=simple\n" ++ execStart baseDir upstreams ++
  lit "\nRestart=on-failure\nRestartSec=3\nUser=root\nLimitNOFILE=65535\n\n" ++
  lit "[Install]\nWantedBy=multi-user.target\n"

/-- The regular expression of the `sed` script: in double quotes `\$` is a dollar sign. -/
def execStartPattern : Text :=
  lit "^ExecStart=$\x7bBASE_DIR\x7d/bin/china-dns-race-proxy -l 127\\.0\\.0\\.1:5301" ++
    lit "( -upstreams [^[:space:]]+)?"

theorem execStartPattern_refused : Ere.refused execStartPattern = true :=
  Ere.refused_append (by decide) _

/-! ## The command -/

/-- The directories and the names of the twelve files. -/
inductive ListDir where
  | conf | dnsdist
  deriving DecidableEq, Repr

inductive ListName where
  | remoteDns | localDns | overseasDns | overseasPrivateDns | overseasPublicDns | sniproxyDns
  deriving DecidableEq, Repr

/-- What the command reads and writes. -/
structure DnsFiles where
  lists : ListDir → ListName → Option Text
  sniproxyConf : Option Text
  /-- `china-dns-race-proxy.service` -/
  unit : Option Text

structure DnsDesk where
  files : DnsFiles
  /-- the remote servers in the configuration of dnsdist -/
  servers : Text
  /-- `update-dnsdist-rules.sh` is installed -/
  updater : Bool
  /-- what `$backup_dir` holds -/
  backup : DnsFiles
  /-- `$remote_dns`, `$local_dns` and `$local_dns_with_ports` -/
  remoteDns : Text
  localDns : Text
  localDnsWithPorts : Text

abbrev DnsScript := Cmd DnsDesk Empty

section Command

variable (T : DnsTools)

/-- A tool without effect on the files. -/
def tool (status : Nat) : DnsScript := .simple fun w => (status, w)

/-- `$(cat /etc/dnsdist/.local_dns || printf '%s' "${DEFAULT_LOCAL_DNS[*]}")` -/
def DnsTools.currentLocalDns (w : DnsDesk) : Text :=
  match w.files.lists .dnsdist .localDns with
  | some text => text.rdropWhile (· == '\n')
  | none => joinWith ' ' T.defaultLocalDns

/-- An assignment of `$(normalize_dns_upstreams ...)`. -/
def DnsTools.normalized (input : DnsDesk → Text) (set : Text → DnsDesk → DnsDesk) : DnsScript :=
  .simple fun w => match T.normalizeDnsUpstreams (input w) with
    | some dns => (0, set dns w)
    | none => (1, w)

/-- What the twelve `echo` write. -/
def writtenLists (remoteDns localDns : Text) : ListDir → ListName → Option Text
  | _, .localDns => some (localDns ++ ['\n'])
  | _, _ => some (remoteDns ++ ['\n'])

/-- `rewrite_sniproxy_dns` -/
def DnsTools.rewriteSniproxyDns : DnsScript :=
  .block [
    .or (.test fun w => w.files.sniproxyConf.isSome) (.ret 0),
    .simple fun w =>
      match w.files.sniproxyConf.bind (rewriteResolver (T.nameservers w.remoteDns)) with
      | some conf => (0, { w with files := { w.files with sniproxyConf := some conf } })
      | none => (1, w)]

/-- `restore_dns_backup`: the lists as they were, and what was saved of the other two files. -/
def restoreDnsBackup : DnsScript :=
  .assign fun w => { w with files :=
    { lists := w.backup.lists
      sniproxyConf := w.backup.sniproxyConf.or w.files.sniproxyConf
      unit := w.backup.unit.or w.files.unit } }

/-- `sed -i -E "s#pattern#replacement#"` on the unit. -/
def DnsTools.sedUnit : DnsScript :=
  .simple fun w =>
    if Ere.refused execStartPattern then (1, w)
    else (0, { w with files := { w.files with
      unit := w.files.unit.map (T.edited execStartPattern (execStart T.baseDir w.localDnsWithPorts)) } })

/-- `update-dnsdist-rules.sh`, as far as the remote servers go. -/
def DnsTools.updateDnsdistRules : DnsScript :=
  .simple fun w =>
    if T.updateRules = 0 then
      (0, { w with servers := T.rendered ((w.files.lists .dnsdist .remoteDns).getD []) })
    else (T.updateRules, w)

/-- **`set_custom_dns`** -/
def DnsTools.setCustomDns (remoteArg localArg : Text) : DnsScript :=
  .block [
    .or (.test fun _ => remoteArg ≠ []) (.block [.nop, .exit 1]),
    T.normalized (fun _ => remoteArg) fun dns w => { w with remoteDns := dns },
    T.normalized (fun w => if localArg = [] then T.currentLocalDns w else localArg)
      fun dns w => { w with localDns := dns },
    .assign fun w => { w with backup := w.files },
    .assign fun w => { w with files := { w.files with
      lists := writtenLists w.remoteDns w.localDns } },
    .ite (.not (.call T.rewriteSniproxyDns)) (.block [restoreDnsBackup, .exit 1]) .nop,
    .ite (.test fun w => w.files.unit.isSome)
      (.block [
        .assign fun w => { w with localDnsWithPorts := T.dnsUpstreamsWithPorts w.localDns },
        T.sedUnit,
        tool T.daemonReload])
      .nop,
    .ite (.test fun w => w.updater)
      (.ite (.not T.updateDnsdistRules)
        (.block [restoreDnsBackup, .or T.updateDnsdistRules .nop, .exit 1]) .nop)
      (.ite (.not (tool T.restartDnsdist)) (.block [restoreDnsBackup, .exit 1]) .nop),
    -- the two restarts that may fail, and the messages
    .nop]

/-- **`Carries`** — every reader of the lists has the new ones. -/
structure DnsTools.Carries (remoteDns localDns : Text) (w : DnsDesk) : Prop where
  lists : w.files.lists = writtenLists remoteDns localDns
  sniproxy : ∀ conf, w.files.sniproxyConf = some conf →
    resolverBlock (T.nameservers remoteDns) <:+: fileLines conf
  dnsdist : w.servers = T.rendered (remoteDns ++ ['\n'])
  unit : ∃ unit, w.files.unit = some unit ∧
    execStart T.baseDir (T.dnsUpstreamsWithPorts localDns) ∈ unit.splitOn '\n'

end Command

/-! ## It never completes -/

section Never

variable {T : DnsTools}

/-- The unit is there. -/
def HasUnit (w : DnsDesk) : Prop := w.files.unit.isSome = true

/-- A command before the `sed` script. -/
theorem hasUnit_goesOn {c : DnsScript} (hf : c.fatal false false) (hk : c.keeps HasUnit) :
    Triple false HasUnit c (onStatus (fun _ => HasUnit) fun o _ => Cmd.exitStatus o ≠ 0) :=
  Triple.of_fatal hf hk fun _ _ hn _ => hn

theorem normalized_keeps {input : DnsDesk → Text} {set : Text → DnsDesk → DnsDesk}
    (hset : ∀ dns w, HasUnit w → HasUnit (set dns w)) : (T.normalized input set).keeps HasUnit := by
  intro w hw
  simp only
  split
  · exact hset _ w hw
  · exact hw

theorem rewriteSniproxyDns_keeps : T.rewriteSniproxyDns.keeps HasUnit := by
  refine ⟨⟨Cmd.test_keeps _, trivial⟩, fun w hw => ?_⟩
  simp only
  split <;> exact hw

theorem restoreDnsBackup_keeps : restoreDnsBackup.keeps HasUnit := by
  intro w hw
  show (w.backup.unit.or w.files.unit).isSome = true
  rw [Option.isSome_or, hw, Bool.or_true]

/-- `sed` refuses its script, and nothing catches that. -/
theorem sedUnit_fails {P : DnsDesk → Prop} {Q : Outcome → DnsDesk → Prop}
    (hexit : ∀ w, P w → Q (.exit 1) w) : Triple false P T.sedUnit Q := by
  intro w hw
  simp only [DnsTools.sedUnit, Cmd.eval, execStartPattern_refused, if_true]
  exact hexit w hw

/-- The part that edits the unit. -/
theorem editUnit_fails {R : DnsDesk → Prop} :
    Triple false HasUnit
      (.ite (.test fun w => w.files.unit.isSome)
        (.block [
          .assign fun w => { w with localDnsWithPorts := T.dnsUpstreamsWithPorts w.localDns },
          T.sedUnit,
          tool T.daemonReload])
        .nop)
      (onStatus (fun _ => R) fun o _ => Cmd.exitStatus o ≠ 0) := by
  refine Triple.ite (R := HasUnit) (S := fun _ => False) ?_ ?_ (fun _ h => h.elim)
  · intro w hw
    have hunit : w.files.unit.isSome = true := hw
    simpa [Cmd.eval, Cmd.test, Cmd.settle, onStatus, hunit] using hw
  · exact Triple.seq (R := HasUnit) (fun w hw => hw)
      (Triple.seq (R := fun _ => False) (sedUnit_fails fun _ _ => Nat.one_ne_zero) fun _ h => h.elim)

/-- Where the unit exists the command ends with a failure, whatever the lists are and whatever the
tools answer. -/
theorem setCustomDns_fails (remoteArg localArg : Text) :
    Triple false HasUnit (T.setCustomDns remoteArg localArg) fun o _ => Cmd.exitStatus o ≠ 0 := by
  have hguard : Triple false HasUnit (.or (.test fun _ => remoteArg ≠ []) (.block [.nop, .exit 1]))
      (onStatus (fun _ => HasUnit) fun o _ => Cmd.exitStatus o ≠ 0) :=
    hasUnit_goesOn ⟨trivial, trivial, Nat.one_ne_zero⟩ ⟨Cmd.test_keeps _, Cmd.nop_keeps, trivial⟩
  have hrewrite : Triple false HasUnit
      (.ite (.not (.call T.rewriteSniproxyDns)) (.block [restoreDnsBackup, .exit 1]) .nop)
      (onStatus (fun _ => HasUnit) fun o _ => Cmd.exitStatus o ≠ 0) :=
    hasUnit_goesOn ⟨⟨⟨trivial, rfl⟩, trivial⟩, ⟨trivial, Nat.one_ne_zero⟩, trivial⟩
      ⟨rewriteSniproxyDns_keeps, ⟨restoreDnsBackup_keeps, trivial⟩, Cmd.nop_keeps⟩
  -- whoever ends the script before `sed` does it with a failure; nothing comes after `sed`
  exact Triple.seq hguard <|
    Triple.seq (hasUnit_goesOn trivial (normalized_keeps fun _ _ hw => hw)) <|
    Triple.seq (hasUnit_goesOn trivial (normalized_keeps fun _ _ hw => hw)) <|
    Triple.seq (hasUnit_goesOn trivial fun _ hw => hw) <|
    Triple.seq (hasUnit_goesOn trivial fun _ hw => hw) <| Triple.seq hrewrite <|
    Triple.seq (R := fun _ => False) editUnit_fails fun _ h => h.elim

/-- **`setCustomDns_never`** — with the unit in place, as every installation leaves it, no call of
`set_custom_dns` completes and leaves the new lists with all their readers. -/
theorem setCustomDns_never (T : DnsTools) (remoteArg localArg : Text) (w : DnsDesk)
    (hunit : w.files.unit.isSome = true) (remoteDns localDns : Text) :
    ¬ (Cmd.exitStatus ((Cmd.call (T.setCustomDns remoteArg localArg)).eval false w).1 = 0 ∧
      T.Carries remoteDns localDns
        ((Cmd.call (T.setCustomDns remoteArg localArg)).eval false w).2) := by
  rintro ⟨hzero, -⟩
  rw [Cmd.eval, Cmd.exitStatus_returned] at hzero
  exact setCustomDns_fails remoteArg localArg w hunit hzero

end Never

/-- An installation in `/opt/gw` whose tools all work, and which knows addresses with dots only. -/
def dottedTools : DnsTools where
  isIp t := t.count '.' = 3 && t.all fun c => c.isDigit || c == '.'
  isPort t := t ≠ [] && t.all Char.isDigit
  baseDir := lit "/opt/gw"
  defaultRemoteDns := [lit "1.1.1.1", lit "8.8.8.8"]
  defaultLocalDns := [lit "223.5.5.5"]
  rendered := id
  edited _ replacement _ := replacement
  updateRules := 0
  restartDnsdist := 0
  daemonReload := 0

def installedFiles : DnsFiles where
  lists := writtenLists (lit "1.1.1.1 8.8.8.8") (lit "223.5.5.5")
  sniproxyConf :=
    some (lit "user daemon\nresolver \x7b\n    nameserver 1.1.1.1\n    mode ipv4_only\n\x7d\n")
  unit := some (raceProxyUnit (lit "/opt/gw") (lit "223.5.5.5:53"))

def installedDesk : DnsDesk where
  files := installedFiles
  servers := lit "1.1.1.1 8.8.8.8\n"
  updater := true
  backup := installedFiles
  remoteDns := []
  localDns := []
  localDnsWithPorts := []

theorem setCustomDns_never_installed :
    ¬ (Cmd.exitStatus ((Cmd.call (dottedTools.setCustomDns (lit "9.9.9.9") (lit "119.29.29.29"))).eval
        false installedDesk).1 = 0 ∧
      dottedTools.Carries (lit "9.9.9.9") (lit "119.29.29.29")
        ((Cmd.call (dottedTools.setCustomDns (lit "9.9.9.9") (lit "119.29.29.29"))).eval
          false installedDesk).2) :=
  setCustomDns_never dottedTools _ _ installedDesk rfl _ _

/-- Two addresses for a machine as it was installed. -/
theorem setCustomDns_breaks_off :
    ¬ ∀ (T : DnsTools) (remoteArg localArg remoteDns localDns old : Text) (w : DnsDesk),
      T.normalizeDnsUpstreams remoteArg = some remoteDns → localArg ≠ [] →
      T.normalizeDnsUpstreams localArg = some localDns →
      w.files.unit = some (raceProxyUnit T.baseDir (T.dnsUpstreamsWithPorts old)) →
      T.updateRules = 0 → T.restartDnsdist = 0 → T.daemonReload = 0 →
      Cmd.exitStatus ((Cmd.call (T.setCustomDns remoteArg localArg)).eval false w).1 = 0 ∧
        T.Carries remoteDns localDns
          ((Cmd.call (T.setCustomDns remoteArg localArg)).eval false w).2 := by
  intro hclaim
  have hdone := hclaim dottedTools (lit "9.9.9.9") (lit "119.29.29.29") (lit "9.9.9.9")
    (lit "119.29.29.29") (lit "223.5.5.5") installedDesk (by decide +kernel) (by decide)
    (by decide +kernel) (by decide +kernel) rfl rfl rfl
  have hstatus : Cmd.exitStatus ((Cmd.call (dottedTools.setCustomDns (lit "9.9.9.9")
      (lit "119.29.29.29"))).eval false installedDesk).1 = 1 := by decide +kernel
  rw [hstatus] at hdone
  nomatch hdone.1

end ProxyGateway.Dns
