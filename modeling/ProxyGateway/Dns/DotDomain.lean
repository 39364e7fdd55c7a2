/-
# ProxyGateway.Dns.DotDomain — `set_dot_domain`, and what it takes back

A change of the domain has `certbot` issue a certificate, copies certificate and key to where dnsdist
reads them, writes two `.domain` files, removes `.cert_basename` and has dnsdist take it all up.  Where
that last step fails, the function writes the three small files back from what it has read of them
before, and says that the domain is rolled back.

It has read nothing of the certificate.  So dnsdist has the old domain and the new certificate then,
and the change is undone exactly where certificate and key were the same before (`undone_iff`).
-/
import ProxyGateway.Lang.Errexit
import ProxyGateway.Dns.GfwList

namespace ProxyGateway.Dns.DotDomain

open ProxyGateway.Lang

/-! ## The files -/

/-- `.domain` in `$CONF_DIR`, `.domain` in `/etc/dnsdist`, and `.cert_basename` in `$CONF_DIR`. -/
inductive NameFile where
  | confDomain | dnsdistDomain | certBasename
  deriving DecidableEq, Repr

/-- The three names, and what is in `/etc/dnsdist/certs`. -/
structure Files (D : Type) where
  names : NameFile → Option Text
  fullchain : Option D
  privkey : Option D

/-- `$(cat file 2>/dev/null || true)`: bash drops the null characters. -/
def remembered (file : Option Text) : Text :=
  captured ((file.getD []).filter (· != Char.ofNat 0))

/-- What `restore_or_remove_file` makes of a remembered text. -/
def restored (old : Text) : Option Text := if old = [] then none else some (old ++ ['\n'])

/-- A text and its newline, as `echo` writes it. -/
def OneLine (text : Text) : Prop :=
  ∃ v, v ≠ [] ∧ v.getLast? ≠ some '\n' ∧ Char.ofNat 0 ∉ v ∧ text = v ++ ['\n']

theorem nul_not_mem_remembered (file : Option Text) : Char.ofNat 0 ∉ remembered file := by
  intro hmem
  have hfilter := (List.rdropWhile_prefix _ _).subset hmem
  simpa using (List.mem_filter.mp hfilter).2

theorem remembered_line {v : Text} (hlast : v.getLast? ≠ some '\n') (hnul : Char.ofNat 0 ∉ v) :
    remembered (some (v ++ ['\n'])) = v := by
  have hkeep : (v ++ ['\n']).filter (· != Char.ofNat 0) = v ++ ['\n'] := by
    apply List.filter_eq_self.mpr
    intro c hc
    rcases List.mem_append.mp hc with hc | hc
    · exact bne_iff_ne.mpr fun heq => hnul (heq ▸ hc)
    · rw [List.mem_singleton.mp hc]
      rfl
  rw [remembered, Option.getD_some, hkeep, captured, List.rdropWhile_concat_pos _ _ _ rfl]
  exact captured_eq_self_iff.mpr hlast

/-- **`restored_remembered_iff`** — a file comes back as it was if it was missing or one line. -/
theorem restored_remembered_iff (file : Option Text) :
    restored (remembered file) = file ↔ ∀ text, file = some text → OneLine text := by
  constructor
  · rintro h text rfl
    unfold restored at h
    split at h
    · nomatch h
    · next hne =>
      have hlast : (remembered (some text)).getLast? ≠ some '\n' :=
        captured_eq_self_iff.mp (captured_captured _)
      exact ⟨_, hne, hlast, nul_not_mem_remembered _, (Option.some.inj h).symm⟩
  · intro h
    cases file with
    | none => rfl
    | some text =>
      obtain ⟨v, hne, hlast, hnul, rfl⟩ := h text rfl
      rw [remembered_line hlast hnul, restored, if_neg hne]

/-! ## The script -/

/-- The tools, and the commands on files. -/
inductive Tool where
  | hooks | certbot | pip | pipAgain | certbotAgain
  | mkdirCerts | cpFullchain | cpPrivkey | chown | chmod
  | mkdirHook | cpHook | chmodHook | mkdirConf
  | write (f : NameFile)
  | remove (f : NameFile)
  | restore (f : NameFile)
  | updateRules | updateAgain | restart | profile
  deriving DecidableEq, Repr

/-- What the function runs on.  `fails` is the status of a tool. -/
structure Tools (D : Type) where
  fails : Tool → Nat
  /-- the address that is looked up, empty where none is found -/
  publicIp : Text
  /-- the answers to the first and the second lookup of a domain -/
  records : Text → List Text
  recordsAgain : Text → List Text
  /-- what `certbot` leaves in `live/<domain>`, asked for a renewal or not -/
  issue : Text → Bool → Option (D × D)
  output : Tool → Text
  scriptDir : Text
  hasRenewHook : Bool
  hasUpdater : Bool
  savedPublicIp : Bool

/-- The files, the variables of the functions, and a log of the tools that ran. -/
structure World (D : Type) where
  files : Files D
  live : Text → Option (D × D)
  domain : Text
  old : NameFile → Text
  forced : Bool
  rc : Nat
  lastOutput : Text
  messages : List Text
  log : List Tool

def World.start {D : Type} (files : Files D) (live : Text → Option (D × D)) : World D :=
  ⟨files, live, [], fun _ => [], false, 0, [], [], []⟩

abbrev Script (D : Type) := Cmd (World D) Empty

section Script

variable {D : Type} (T : Tools D)

/-- `err`, `ok`, `info` and `warn` -/
def say (text : World D → Text) : Script D :=
  .assign fun w => { w with messages := w.messages ++ [text w] }

/-- Messages, and `exit 1`. -/
def refuse : List (World D → Text) → Script D
  | [] => .exit 1
  | text :: texts => .seq (say text) (refuse texts)

/-- A tool, with what it does if it succeeds. -/
def Tools.run (tool : Tool) (f : World D → World D) : Script D :=
  .simple fun w =>
    let w := { w with log := tool :: w.log }
    if T.fails tool = 0 then (0, f w) else (T.fails tool, w)

/-- What is written to one of the three files, or that it is removed. -/
def World.setName (w : World D) (f : NameFile) (text : Option Text) : World D :=
  { w with files := { w.files with names := Function.update w.files.names f text } }

/-- `is_valid_domain` -/
def isValidDomain (d : Text) : Bool := isDomain d

/-- `get_public_ip` -/
def Tools.getPublicIp : Script D :=
  .block [
    .ite (.test fun _ => T.publicIp = [])
      (refuse [fun _ =>
        lit "Failed to detect public IPv4 address. Please set PUBLIC_IP manually."]) .nop,
    say fun _ => lit "Public IP detected: " ++ T.publicIp]

/-- `domain_resolves_to_public_ip` -/
def Tools.domainResolvesToPublicIp (domain : Text) : Bool :=
  domain ≠ [] && T.publicIp ≠ [] && T.publicIp ∈ T.recordsAgain domain

/-- `… | paste -sd',' -` -/
def joined (records : List Text) : Text := [','].intercalate records

/-! ### The certificate -/

/-- `if out="$("${cb_cmd[@]}" 2>&1)"; then rc=0; else rc=$?; fi`, and what becomes of the output. -/
def Tools.certbot (tool : Tool) : Script D :=
  .assign fun w => { w with
    rc := T.fails tool
    lastOutput := T.output tool
    live := if T.fails tool = 0 then Function.update w.live w.domain (T.issue w.domain w.forced)
      else w.live
    messages := w.messages ++ [T.output tool]
    log := tool :: w.log }

/-- The second attempt, after one of the two ways to update the packages. -/
def Tools.retryCertbot : Script D :=
  .block [
    say fun _ => lit "Certbot compatibility error detected. Attempting to fix Python dependencies...",
    .or (T.run .pip id) (.or (T.run .pipAgain id) .nop),
    say fun _ => lit "Retrying certificate request...",
    T.certbot .certbotAgain,
    -- `return $rc`
    .simple fun w => (w.rc, w)]

/-- **`run_certbot`** -/
def Tools.runCertbot : Script D :=
  .block [
    T.certbot .certbot,
    .ite (.test fun w => w.rc = 0) (.ret 0) .nop,
    .ite (.test fun w => w.lastOutput.tails.any (lit "AttributeError").isPrefixOf)
      T.retryCertbot (.ret 1)]

/-- `cp "${cert_live_dir}/fullchain.pem" /etc/dnsdist/certs/fullchain.pem` -/
def World.copyFullchain (w : World D) : World D :=
  { w with files := { w.files with fullchain := (w.live w.domain).map Prod.fst } }

/-- `cp "${cert_live_dir}/privkey.pem" /etc/dnsdist/certs/privkey.pem` -/
def World.copyPrivkey (w : World D) : World D :=
  { w with files := { w.files with privkey := (w.live w.domain).map Prod.snd } }

/-- `printf '%s\n' … | tail -n` -/
def lastLines (n : Nat) (t : Text) : Text := ['\n'].intercalate ((t.splitOn '\n').rtake n)

/-- The copies for dnsdist. -/
def Tools.copyCerts : List (Script D) :=
  [T.run .mkdirCerts id, T.run .cpFullchain World.copyFullchain, T.run .cpPrivkey World.copyPrivkey,
    T.run .chown id, T.run .chmod id]

/-- **`install_cert`** -/
def Tools.installCert : Script D :=
  .block [
    T.run .hooks id,
    .assign fun w => { w with lastOutput := [], forced := (w.live w.domain).isSome },
    say fun w => if w.forced then
        lit "Let's Encrypt certificate already exists for " ++ w.domain ++ lit ", forcing renewal..."
      else lit "申请 Let's Encrypt 证书 for " ++ w.domain ++ lit "...",
    .ite (.not (.call T.runCertbot))
      (refuse [fun _ => lit "证书申请失败。请检查:",
        fun w => lit "  1. 域名 " ++ w.domain ++ lit " 是否正确解析到本机 (" ++ T.publicIp ++
          lit ")",
        fun _ => lit "  2. 端口 80 是否被占用",
        fun _ => lit "  3. 防火墙是否放行 80",
        fun _ => lit "  4. 是否触发了 Let's Encrypt 速率限制 (同一域名 7 天内限 5 次)",
        fun w => if w.lastOutput = [] then [] else lit "certbot 最后输出:\n" ++ lastLines 30 w.lastOutput])
      .nop,
    say fun _ => lit "Copying certificates to /etc/dnsdist/certs/ ...",
    .ite (.test fun w => (w.live w.domain).isSome)
      (.block (T.copyCerts ++ [say fun _ => lit "Certificates copied to /etc/dnsdist/certs/"]))
      (say fun w => lit "Could not find certificate live directory: /etc/letsencrypt/live/" ++ w.domain),
    T.run .mkdirHook id,
    .ite (.test fun _ => T.hasRenewHook)
      (.block [T.run .cpHook id, T.run .chmodHook id,
        say fun _ => lit "证书已就绪，自动续期 Hook 已部署"])
      (.block [say fun _ => lit "renew-hook.sh not found in " ++ T.scriptDir ++
          lit "; keeping existing renewal hook",
        say fun _ => lit "证书已就绪"])]

/-! ### The domain -/

def Tools.path : NameFile → Text
  | .confDomain => T.scriptDir ++ lit "/runtime/.domain"
  | .dnsdistDomain => lit "/etc/dnsdist/.domain"
  | .certBasename => T.scriptDir ++ lit "/runtime/.cert_basename"

/-- **`restore_or_remove_file`**, with the remembered text of the file. -/
def Tools.restoreOrRemoveFile (f : NameFile) : Script D :=
  .call (.ite (.test fun w => w.old f ≠ [])
    (.ite (.not (T.run (.restore f) fun w => w.setName f (some (w.old f ++ ['\n']))))
      (.block [say fun _ => lit "restore_or_remove_file: failed to restore " ++ T.path f, .ret 1]) .nop)
    (T.run (.remove f) fun w => w.setName f none))

/-- The three files back. -/
def Tools.rollback : List (Script D) :=
  [T.restoreOrRemoveFile .confDomain, T.restoreOrRemoveFile .dnsdistDomain,
    T.restoreOrRemoveFile .certBasename]

/-- **`regenerate_ios_profile`** -/
def Tools.regenerateIosProfile : Script D :=
  .block [
    .assign fun w => { w with
      domain := match w.files.names .confDomain, w.files.names .dnsdistDomain with
        | some text, _ => remembered (some text)
        | none, some text => remembered (some text)
        | none, none => w.domain },
    .ite (.test fun _ => T.savedPublicIp) .nop (.call T.getPublicIp),
    .ite (.test fun w => w.domain = [])
      (refuse [fun _ => lit "No domain found. Cannot generate iOS profile."]) .nop,
    T.run .profile id]

/-- The checks before anything is changed. -/
def Tools.checks (newDomain : Text) : List (Script D) :=
  [.or (.test fun _ => newDomain ≠ []) (refuse [fun _ => lit "Usage: --set-dot-domain <domain>"]),
    .ite (.not (.test fun _ => isValidDomain newDomain))
      (refuse [fun _ => lit "Invalid domain: '" ++ newDomain ++
        lit "'. Provide a fully-qualified domain like dns.example.com"]) .nop,
    .call T.getPublicIp,
    say fun _ => lit "DNS 解析检查",
    say fun _ => lit "域名: " ++ newDomain,
    say fun _ => lit "需要的 A 记录值: " ++ T.publicIp,
    .ite (.not (.test fun _ => T.domainResolvesToPublicIp newDomain))
      (refuse [fun _ => newDomain ++ lit " 当前解析到 " ++
          (if T.records newDomain = [] then lit "无" else joined (T.records newDomain)) ++
          lit "，不是本机 " ++ T.publicIp,
        fun _ => lit "请先把 A 记录指向本机公网 IP 后重试。"]) .nop]

/-- The domain in the files. -/
def Tools.writeNames : List (Script D) :=
  [T.run .mkdirConf id,
    T.run (.write .confDomain) fun w => w.setName .confDomain (some (echo w.domain)),
    T.run (.write .dnsdistDomain) fun w => w.setName .dnsdistDomain (some (echo w.domain)),
    T.run (.remove .certBasename) fun w => w.setName .certBasename none]

/-- dnsdist takes up the domain, or the files come back. -/
def Tools.reload : Script D :=
  .ite (.test fun _ => T.hasUpdater)
    (.ite (.not (T.run .updateRules id))
      (.block (T.rollback ++ [.or (T.run .updateAgain id) .nop,
        refuse [fun _ => lit "dnsdist config update failed; DoT domain rolled back"]])) .nop)
    (.ite (.not (T.run .restart id))
      (.block (T.rollback ++
        [refuse [fun _ => lit "dnsdist restart failed; DoT domain rolled back"]])) .nop)

/-- **`set_dot_domain`** -/
def Tools.setDotDomain (newDomain : Text) : Script D :=
  .seq (.block (T.checks newDomain)) <|
  .seq (.assign fun w => { w with old := fun f => remembered (w.files.names f), domain := newDomain }) <|
  .seq (.call T.installCert) <|
  .seq (.block T.writeNames) <|
  .seq T.reload <|
  .seq (.or (.call T.regenerateIosProfile) (say fun _ => lit "iOS profile regeneration failed"))
    (say fun w => lit "DoT domain updated: " ++ w.domain)

/-- `install.sh --set-dot-domain`: the status of the script, and the world it leaves. -/
def Tools.setDotDomainStatus (newDomain : Text) (w : World D) : Nat × World D :=
  let r := (Cmd.call (T.setDotDomain newDomain)).eval false w
  (Cmd.exitStatus r.1, r.2)

end Script

/-! ## Where it stands -/

section Stages

variable {D : Type} {T : Tools D}

/-- The command that dnsdist takes the domain up with. -/
def Tools.dnsdist (T : Tools D) : Tool := if T.hasUpdater then .updateRules else .restart

def Tool.isDnsdist : Tool → Bool
  | .updateRules | .restart => true
  | _ => false

theorem ne_dnsdist {tool : Tool} (h : tool.isDnsdist = false) : T.dnsdist ≠ tool := by
  rintro rfl
  unfold Tools.dnsdist at h
  split at h <;> nomatch h

/-- What the commands that matter act on. -/
structure Core (D : Type) where
  files : Files D
  live : Text → Option (D × D)
  domain : Text
  old : NameFile → Text
  forced : Bool

def World.core (w : World D) : Core D := ⟨w.files, w.live, w.domain, w.old, w.forced⟩

theorem World.core_copyFullchain (w : World D) : w.copyFullchain.core = { w.core with
    files := { w.core.files with fullchain := (w.core.live w.core.domain).map Prod.fst } } := rfl

theorem World.core_copyPrivkey (w : World D) : w.copyPrivkey.core = { w.core with
    files := { w.core.files with privkey := (w.core.live w.core.domain).map Prod.snd } } := rfl

theorem World.core_setName (w : World D) (f : NameFile) (text : Option Text) :
    (w.setName f text).core = { w.core with
      files := { w.core.files with names := Function.update w.core.files.names f text } } := rfl

/-- Before dnsdist, with `k`. -/
structure At (T : Tools D) (k : Core D) (w : World D) : Prop where
  core : w.core = k
  log : T.dnsdist ∉ w.log

/-- The end: where dnsdist was reached, the files are `files`. -/
def Ends (T : Tools D) (files : Files D) (_ : Outcome) (w : World D) : Prop :=
  T.dnsdist ∈ w.log → w.files = files

/-- A post-condition under which the script may stop before dnsdist. -/
def Admits (T : Tools D) (Q : Outcome → World D → Prop) : Prop :=
  ∀ n w, T.dnsdist ∉ w.log → Q (.exit n) w

theorem admits_ends (files : Files D) : Admits T (Ends T files) := fun _ _ hlog hmem => (hlog hmem).elim

theorem Admits.onStatus {R : Nat → World D → Prop} {Q : Outcome → World D → Prop} (hQ : Admits T Q) :
    Admits T (onStatus R Q) := hQ

variable {k k' : Core D} {Q : Outcome → World D → Prop}

/-- A command on the way. -/
theorem at_goesOn (hQ : Admits T Q) {c : Script D} (hf : c.fatal false false)
    (hk : c.keeps (At T k)) : Triple false (At T k) c (onStatus (fun _ => At T k) Q) :=
  Triple.of_fatal hf hk fun n w _ hw => hQ n w hw.log

theorem say_keeps (text : World D → Text) : (say text).keeps (At T k) :=
  fun _ hw => ⟨hw.core, hw.log⟩

theorem refuse_keeps (texts : List (World D → Text)) : (refuse texts).keeps (At T k) := by
  induction texts with
  | nil => exact trivial
  | cons text texts ih => exact ⟨say_keeps text, ih⟩

theorem refuse_fatal {loop fn : Bool} (texts : List (World D → Text)) :
    (refuse texts).fatal loop fn := by
  induction texts with
  | nil => exact Nat.one_ne_zero
  | cons text texts ih => exact ⟨trivial, ih⟩

/-- A tool that changes nothing here. -/
theorem run_keeps {tool : Tool} (htool : tool.isDnsdist = false) : (T.run tool id).keeps (At T k) := by
  intro w hw
  have hlog : T.dnsdist ∉ tool :: w.log := by
    rw [List.mem_cons, not_or]
    exact ⟨ne_dnsdist htool, hw.log⟩
  simp only
  split
  · exact ⟨hw.core, hlog⟩
  · exact ⟨hw.core, hlog⟩

/-- A tool before dnsdist. -/
theorem run_spec (hQ : Admits T Q) {P R : World D → Prop} {tool : Tool} {f : World D → World D}
    (htool : tool.isDnsdist = false) (hP : ∀ w, P w → T.dnsdist ∉ w.log)
    (hR : ∀ w, P w → T.dnsdist ∉ tool :: w.log → R (f { w with log := tool :: w.log })) :
    Triple false P (T.run tool f) (onStatus (fun _ => R) Q) := by
  have hlog : ∀ w, P w → T.dnsdist ∉ tool :: w.log := by
    intro w hw
    rw [List.mem_cons, not_or]
    exact ⟨ne_dnsdist htool, hP w hw⟩
  exact Triple.tool (fun _ w hw => hR w hw (hlog w hw)) fun _ w hw => hQ _ _ (hlog w hw)

/-- A tool that takes the script from `k` to `k'`. -/
theorem run_at (hQ : Admits T Q) {tool : Tool} {f : World D → World D}
    (htool : tool.isDnsdist = false)
    (hf : ∀ w, w.core = k → (f w).core = k' ∧ (f w).log = w.log) :
    Triple false (At T k) (T.run tool f) (onStatus (fun _ => At T k') Q) := by
  refine run_spec hQ htool (fun w hw => hw.log) fun w hw hlog => ?_
  obtain ⟨hcore, hflog⟩ := hf { w with log := tool :: w.log } hw.core
  exact ⟨hcore, hflog ▸ hlog⟩

/-! ### Up to the certificate -/

theorem getPublicIp_keeps : T.getPublicIp.keeps (At T k) :=
  ⟨⟨Cmd.test_keeps _, refuse_keeps _, Cmd.nop_keeps⟩, say_keeps _⟩

theorem checks_spec (hQ : Admits T Q) (newDomain : Text) :
    Triple false (At T k) (.block (T.checks newDomain)) (onStatus (fun _ => At T k) Q) := by
  apply at_goesOn hQ
  · exact ⟨⟨trivial, refuse_fatal _⟩, ⟨trivial, refuse_fatal _, trivial⟩,
      ⟨⟨trivial, refuse_fatal _, trivial⟩, trivial⟩, trivial, trivial, trivial, trivial, refuse_fatal _,
      trivial⟩
  · exact ⟨⟨Cmd.test_keeps _, refuse_keeps _⟩, ⟨fun _ hw => hw, refuse_keeps _, Cmd.nop_keeps⟩,
      getPublicIp_keeps, say_keeps _, say_keeps _, say_keeps _, fun _ hw => hw, refuse_keeps _,
      Cmd.nop_keeps⟩

/-- The certificate is in `live`. -/
def Core.issued (T : Tools D) (k : Core D) : Core D :=
  { k with live := Function.update k.live k.domain (T.issue k.domain k.forced) }

/-- What a run of `certbot` leaves, by its status. -/
structure Tried (T : Tools D) (k : Core D) (w : World D) : Prop where
  done : w.rc = 0 → w.core = k.issued T
  failed : w.rc ≠ 0 → w.core = k
  log : T.dnsdist ∉ w.log

theorem certbot_spec {tool : Tool} (htool : tool.isDnsdist = false) :
    Triple true (At T k) (T.certbot tool) (onStatus (fun _ => Tried T k) Q) := by
  rintro w ⟨rfl, hlog⟩
  refine ⟨fun hrc => ?_, fun hrc => ?_, ?_⟩
  · have hok : T.fails tool = 0 := hrc
    simp only [World.core, Core.issued, Tools.certbot, Cmd.assign, Cmd.eval, hok, if_true]
  · have hfail : ¬ T.fails tool = 0 := hrc
    simp only [World.core, Tools.certbot, Cmd.assign, Cmd.eval, hfail, if_false]
  · show T.dnsdist ∉ tool :: w.log
    rw [List.mem_cons, not_or]
    exact ⟨ne_dnsdist htool, hlog⟩

/-- Status 0 means that there is a certificate. -/
def Issues (T : Tools D) (k : Core D) (n : Nat) (w : World D) : Prop :=
  if n = 0 then At T (k.issued T) w else At T k w

/-- How `run_certbot` ends. -/
def Gives (T : Tools D) (k : Core D) (o : Outcome) (w : World D) : Prop :=
  ∃ n, (o = .status n ∨ o = .ret n) ∧ Issues T k n w

theorem Tried.issues {w : World D} (h : Tried T k w) : Issues T k w.rc w := by
  unfold Issues
  split
  · next hrc => exact ⟨h.done hrc, h.log⟩
  · next hrc => exact ⟨h.failed hrc, h.log⟩

theorem retryCertbot_spec : Triple true (At T k) T.retryCertbot (Gives T k) := by
  have hsay : ∀ text, Triple true (At T k) (say text) (onStatus (fun _ => At T k) (Gives T k)) :=
    fun _ _ hw => ⟨hw.core, hw.log⟩
  have hpip : Triple true (At T k) (.or (T.run .pip id) (.or (T.run .pipAgain id) .nop))
      (onStatus (fun _ => At T k) (Gives T k)) := by
    apply Triple.of_quiet
    · exact ⟨.inl rfl, .inl rfl, .inl rfl⟩
    · exact ⟨run_keeps rfl, run_keeps rfl, Cmd.nop_keeps⟩
  have hlast : Triple true (Tried T k) (.simple fun w => (w.rc, w) : Script D) (Gives T k) :=
    fun w hw => ⟨w.rc, .inl (by simp [Cmd.eval, Cmd.settle]), hw.issues⟩
  exact Triple.seq (hsay _) <| Triple.seq hpip <| Triple.seq (hsay _) <|
    Triple.seq (certbot_spec rfl) hlast

theorem tried_spec :
    Triple true (Tried T k) (.ite (.test fun w => w.rc = 0) (.ret 0) .nop : Script D)
      (onStatus (fun _ => At T k) (Gives T k)) := by
  refine Triple.ite (R := At T (k.issued T)) (S := At T k) (fun w hw => ?_)
    (Triple.ret fun w hw => ⟨0, .inr rfl, hw⟩) fun w hw => hw
  have hissues := hw.issues
  unfold Issues at hissues
  by_cases hrc : w.rc = 0
  · simpa [Cmd.eval, Cmd.test, Cmd.settle, onStatus, hrc] using hissues
  · simpa [Cmd.eval, Cmd.test, Cmd.settle, onStatus, hrc] using hissues

/-- **`runCertbot_spec`** — the certificate is issued at the first or at the second attempt, or the
function fails. -/
theorem runCertbot_spec : Triple true (At T k) (.call T.runCertbot) (onStatus (Issues T k) Q) := by
  have hbody : Triple true (At T k) T.runCertbot (Gives T k) := by
    refine Triple.seq (certbot_spec rfl) <| Triple.seq tried_spec <|
      Triple.ite (R := At T k) (S := At T k) (fun w hw => ?_) retryCertbot_spec
        (Triple.ret fun w hw => ⟨1, .inr rfl, hw⟩)
    simpa [Cmd.eval, Cmd.test, Cmd.settle, onStatus] using hw
  refine Triple.call (hbody.mono ?_)
  rintro o w ⟨n, rfl | rfl, hw⟩
  · simpa [Cmd.returned, Cmd.settle, onStatus] using hw
  · simpa [Cmd.returned, Cmd.settle, onStatus] using hw

/-- What dnsdist is going to serve. -/
def Core.copied (k : Core D) : Core D :=
  match k.live k.domain with
  | some (cert, key) => { k with files := { k.files with fullchain := some cert, privkey := some key } }
  | none => k

theorem copyCerts_spec (hQ : Admits T Q) (hlive : (k.live k.domain).isSome) :
    Triple false (At T k) (.block (T.copyCerts ++
      [say fun _ => lit "Certificates copied to /etc/dnsdist/certs/"]))
      (onStatus (fun _ => At T k.copied) Q) := by
  obtain ⟨⟨cert, key⟩, hlive⟩ := Option.isSome_iff_exists.mp hlive
  have hrun : ∀ {k : Core D} {tool : Tool}, tool.isDnsdist = false →
      Triple false (At T k) (T.run tool id) (onStatus (fun _ => At T k) _) := fun htool =>
    at_goesOn (hQ.onStatus (R := fun _ => At T k.copied)) trivial (run_keeps htool)
  let halfway : Core D := { k with files := { k.files with fullchain := some cert } }
  have hcert : Triple false (At T k) (T.run .cpFullchain World.copyFullchain)
      (onStatus (fun _ => At T halfway) (onStatus (fun _ => At T k.copied) Q)) := by
    refine run_at hQ.onStatus ?_ fun w hw => ⟨?_, ?_⟩
    · rfl
    · rw [World.core_copyFullchain, hw, hlive]
      rfl
    · rfl
  have hkey : Triple false (At T halfway) (T.run .cpPrivkey World.copyPrivkey)
      (onStatus (fun _ => At T k.copied) (onStatus (fun _ => At T k.copied) Q)) := by
    refine run_at hQ.onStatus ?_ fun w hw => ⟨?_, ?_⟩
    · rfl
    · show _ = Core.copied k
      rw [World.core_copyPrivkey, hw, Core.copied, hlive]
      rfl
    · rfl
  exact Triple.seq (hrun rfl) <| Triple.seq hcert <| Triple.seq hkey <|
    Triple.seq (hrun rfl) <| Triple.seq (hrun rfl)
      fun w hw => ⟨hw.core, hw.log⟩

/-- Where `certbot` leaves nothing, nothing is copied. -/
theorem serve_spec (hQ : Admits T Q) : Triple false (At T k)
    (.ite (.test fun w => (w.live w.domain).isSome)
      (.block (T.copyCerts ++ [say fun _ => lit "Certificates copied to /etc/dnsdist/certs/"]))
      (say fun w => lit "Could not find certificate live directory: /etc/letsencrypt/live/" ++ w.domain))
    (onStatus (fun _ => At T k.copied) Q) := by
  have hlive : ∀ w, At T k w → w.live w.domain = k.live k.domain := fun w hw => by
    rw [← hw.core]
    rfl
  cases hk : (k.live k.domain).isSome with
  | true =>
    refine Triple.ite (R := At T k) (S := fun _ => False) (fun w hw => ?_) (copyCerts_spec hQ hk)
      fun _ h => h.elim
    simpa [Cmd.eval, Cmd.test, Cmd.settle, onStatus, hlive w hw, hk] using hw
  | false =>
    have hnone : k.live k.domain = none := by simpa using hk
    have hsame : k.copied = k := by rw [Core.copied, hnone]
    refine Triple.ite (R := fun _ => False) (S := At T k) (fun w hw => ?_) (fun _ h => h.elim) ?_
    · simpa [Cmd.eval, Cmd.test, Cmd.settle, onStatus, hlive w hw, hk] using hw
    · rw [hsame]
      exact fun w hw => ⟨hw.core, hw.log⟩

/-- The directory of the domain is there already. -/
def Core.asked (k : Core D) : Core D := { k with forced := (k.live k.domain).isSome }

/-- A function whose body ends with a status. -/
theorem call_spec (hQ : Admits T Q) {body : Script D}
    (h : ∀ {Q : Outcome → World D → Prop}, Admits T Q →
      Triple false (At T k) body (onStatus (fun _ => At T k') Q)) :
    Triple false (At T k) (.call body) (onStatus (fun _ => At T k') Q) := by
  apply Triple.call
  refine (h (Q := fun o w => (∃ n, o = .exit n) ∧ T.dnsdist ∉ w.log)
    fun n w hlog => ⟨⟨n, rfl⟩, hlog⟩).mono fun o w ho => ?_
  cases o with
  | status n =>
    have hw : At T k' w := ho
    simp only [Cmd.returned, Cmd.settle]
    split
    · exact hQ n w hw.log
    · exact hw
  | exit n => exact hQ n w ho.2
  | _ =>
    obtain ⟨n, hn⟩ := ho.1
    cases hn

theorem refuse_exits {P : World D → Prop} (hsay : ∀ text, (say text : Script D).keeps P)
    (texts : List (World D → Text)) :
    Triple false P (refuse texts) fun o w => o = .exit 1 ∧ P w := by
  induction texts with
  | nil => exact Triple.exit fun w hw => ⟨rfl, hw⟩
  | cons text texts ih => exact Triple.seq (fun w hw => hsay text w hw) ih

/-- Without a certificate the script ends. -/
theorem issue_spec (hQ : Admits T Q) (texts : List (World D → Text)) :
    Triple false (At T k) (.ite (.not (.call T.runCertbot)) (refuse texts) .nop)
      (onStatus (fun _ => At T (k.issued T)) Q) := by
  have hrun : Triple true (At T k) (.call T.runCertbot) (onStatus (Issues T k) Q) := runCertbot_spec
  refine Triple.ite (R := At T k) (S := At T (k.issued T)) (Triple.not (hrun.mono fun o w ho => ?_))
    ((refuse_exits say_keeps texts).mono ?_) fun w hw => hw
  · cases o with
    | status n =>
      have hw : Issues T k n w := ho
      unfold Issues at hw
      by_cases hn : n = 0
      · simpa [onStatus, hn] using hw
      · simpa [onStatus, hn] using hw
    | _ => exact ho
  · rintro o w ⟨rfl, hw⟩
    exact hQ 1 w hw.log

/-- **`installCert_spec`** — the certificate is issued, and served if `certbot` has left it. -/
theorem installCert_spec (hQ : Admits T Q) : Triple false (At T k) (.call T.installCert)
    (onStatus (fun _ => At T (k.asked.issued T).copied) Q) := by
  refine call_spec hQ fun {Q} hQ => ?_
  have hgo : ∀ {k k' : Core D} {c : Script D}, c.fatal false false → c.keeps (At T k) →
      Triple false (At T k) c (onStatus (fun _ => At T k) (onStatus (fun _ => At T k') Q)) :=
    fun hf hk => at_goesOn hQ.onStatus hf hk
  have hask : Triple false (At T k) (.assign fun w => { w with
      lastOutput := [], forced := (w.live w.domain).isSome } : Script D)
      (onStatus (fun _ => At T k.asked) (onStatus (fun _ => At T (k.asked.issued T).copied) Q)) := by
    rintro w ⟨rfl, hlog⟩
    exact ⟨rfl, hlog⟩
  refine Triple.seq (hgo trivial (run_keeps rfl)) <| Triple.seq hask <|
    Triple.seq (hgo trivial (say_keeps _)) <| Triple.seq (issue_spec hQ.onStatus _) <|
    Triple.seq (hgo trivial (say_keeps _)) <| Triple.seq (serve_spec hQ.onStatus) <|
    Triple.seq (hgo trivial (run_keeps rfl)) ?_
  apply at_goesOn hQ
  · exact ⟨trivial, ⟨trivial, trivial, trivial⟩, trivial, trivial⟩
  · exact ⟨Cmd.test_keeps _, ⟨run_keeps rfl, run_keeps rfl, say_keeps _⟩, say_keeps _, say_keeps _⟩

/-! ### Names, and the way back -/

/-- The names of `k` replaced. -/
def Core.named (k : Core D) (names : NameFile → Option Text) : Core D :=
  { k with files := { k.files with names := names } }

/-- `k`, whatever the names are. -/
def AtNamed (T : Tools D) (k : Core D) (w : World D) : Prop := ∃ names, At T (k.named names) w

theorem writeNames_spec (hQ : Admits T Q) : Triple false (At T k) (.block T.writeNames)
    (onStatus (fun _ => AtNamed T k) Q) := by
  have hmkdir : Triple false (At T k) (T.run .mkdirConf id)
      (onStatus (fun _ => AtNamed T k) (onStatus (fun _ => AtNamed T k) Q)) :=
    run_spec hQ.onStatus rfl (fun w hw => hw.log) fun w hw hlog => ⟨k.files.names, hw.core, hlog⟩
  have hset : ∀ {tool : Tool} {f : NameFile} {text : World D → Option Text}
      {Q : Outcome → World D → Prop}, Admits T Q → tool.isDnsdist = false →
      Triple false (AtNamed T k) (T.run tool fun w => w.setName f (text w))
        (onStatus (fun _ => AtNamed T k) Q) := by
    intro tool f text Q hQ htool
    refine run_spec hQ htool (fun w hw => hw.choose_spec.log) ?_
    rintro w ⟨names, hw⟩ hlog
    let wrote : World D := { w with log := tool :: w.log }
    refine ⟨Function.update names f (text wrote), ?_, hlog⟩
    have hcore : wrote.core = k.named names := hw.core
    rw [World.core_setName, hcore]
    rfl
  exact Triple.seq hmkdir <| Triple.seq (hset hQ.onStatus rfl) <| Triple.seq (hset hQ.onStatus rfl)
    (hset hQ rfl)

/-- What the rollback acts on, whatever the log says. -/
def Held (k : Core D) (w : World D) : Prop := w.core = k

theorem restoreOrRemoveFile_spec (f : NameFile) (hrestore : T.fails (.restore f) = 0)
    (hremove : T.fails (.remove f) = 0) :
    Triple false (Held k) (T.restoreOrRemoveFile f)
      (onStatus (fun _ => Held (k.named (Function.update k.files.names f (restored (k.old f))))) Q) := by
  rintro w rfl
  by_cases hold : w.old f = []
  · have hnone : restored (w.core.old f) = none := if_pos hold
    rw [hnone]
    simp [Tools.restoreOrRemoveFile, Tools.run, Cmd.eval, Cmd.test, Cmd.settle, Cmd.returned, hold,
      hremove, onStatus]
    rfl
  · have hsome : restored (w.core.old f) = some (w.old f ++ ['\n']) := if_neg hold
    rw [hsome]
    simp [Tools.restoreOrRemoveFile, Tools.run, Cmd.eval, Cmd.test, Cmd.settle, Cmd.returned, hold,
      hrestore, onStatus, Cmd.nop]
    rfl

/-- The state that a rollback ends in. -/
def Core.rolledBack (k : Core D) : Core D := k.named fun f => restored (k.old f)

/-- `restore` and `remove` work. -/
def Tools.WritesBack (T : Tools D) : Prop := ∀ f, T.fails (.restore f) = 0 ∧ T.fails (.remove f) = 0

/-- All three files come back. -/
theorem rollback_spec (hback : T.WritesBack) {c : Script D} {Q : Outcome → World D → Prop}
    (hc : Triple false (Held k.rolledBack) c Q) :
    Triple false (Held k) (.block (T.rollback ++ [c])) Q := by
  have hrestore : ∀ {k : Core D} f, Triple false (Held k) (T.restoreOrRemoveFile f)
      (onStatus (fun _ => Held (k.named (Function.update k.files.names f (restored (k.old f))))) Q) :=
    fun f => restoreOrRemoveFile_spec f (hback f).1 (hback f).2
  refine Triple.seq (hrestore .confDomain) <| Triple.seq (hrestore .dnsdistDomain) <|
    Triple.seq (hrestore .certBasename) ?_
  have hall : ∀ (names : NameFile → Option Text) (back : NameFile → Option Text),
      Function.update (Function.update (Function.update names .confDomain (back .confDomain))
        .dnsdistDomain (back .dnsdistDomain)) .certBasename (back .certBasename) = back := by
    intro names back
    funext f
    cases f <;> rfl
  intro w hw
  refine hc w (hw.trans ?_)
  show k.named (Function.update _ _ _) = _
  exact congrArg k.named (hall _ fun f => restored (k.old f))

/-- Where dnsdist fails, what stands behind it runs. -/
theorem dnsdist_fails {tool : Tool} (htool : T.dnsdist = tool) (hfail : T.fails T.dnsdist ≠ 0)
    {c : Script D} (hc : Triple false (Held k) c Q) :
    Triple false (At T k) (.ite (.not (T.run tool id)) c .nop) Q := by
  refine Triple.ite (R := Held k) (S := fun _ => False) (fun w hw => ?_) hc fun _ h => h.elim
  have hne : T.fails tool ≠ 0 := htool ▸ hfail
  obtain ⟨n, hn⟩ := Nat.exists_eq_succ_of_ne_zero hne
  simp only [Tools.run, Cmd.eval, hn, Nat.succ_ne_zero, if_false]
  exact hw.core

/-- **`reload_spec`** — where dnsdist fails, the script ends with the names of before. -/
theorem reload_spec (hfail : T.fails T.dnsdist ≠ 0) (hback : T.WritesBack) :
    Triple false (At T k) T.reload (onStatus (fun _ _ => False) (Ends T k.rolledBack.files)) := by
  have hsay : ∀ text, (say text : Script D).keeps (Held k.rolledBack) := fun _ _ hw => hw
  have hend : ∀ texts, Triple false (Held k.rolledBack) (refuse texts)
      (onStatus (fun _ _ => False) (Ends T k.rolledBack.files)) := by
    intro texts
    refine (refuse_exits hsay texts).mono ?_
    rintro o w ⟨rfl, hw⟩ -
    exact congrArg Core.files hw
  have hagain : Triple false (Held k.rolledBack) (.or (T.run .updateAgain id) .nop)
      (onStatus (fun _ => Held k.rolledBack)
        (onStatus (fun _ _ => False) (Ends T k.rolledBack.files))) := by
    apply Triple.of_quiet
    · exact ⟨.inl rfl, .inr fun _ => rfl⟩
    · refine ⟨fun w hw => ?_, fun _ hw => hw⟩
      simp only
      split <;> exact hw
  cases hup : T.hasUpdater with
  | true =>
    have hdnsdist : T.dnsdist = .updateRules := if_pos hup
    refine Triple.ite (R := At T k) (S := fun _ => False) (fun w hw => ?_)
      (dnsdist_fails hdnsdist hfail (rollback_spec hback (Triple.seq hagain (hend _)))) fun _ h => h.elim
    simpa [Cmd.eval, Cmd.test, Cmd.settle, onStatus, hup] using hw
  | false =>
    have hdnsdist : T.dnsdist = .restart := if_neg (by simp [hup])
    refine Triple.ite (R := fun _ => False) (S := At T k) (fun w hw => ?_) (fun _ h => h.elim)
      (dnsdist_fails hdnsdist hfail (rollback_spec hback (hend _)))
    simpa [Cmd.eval, Cmd.test, Cmd.settle, onStatus, hup] using hw

end Stages

/-! ## A failed change -/

section Undone

variable {D : Type} (T : Tools D) (newDomain : Text) (files : Files D) (live : Text → Option (D × D))

/-- `install.sh --set-dot-domain` on a host with these files. -/
def Tools.change : Nat × World D := T.setDotDomainStatus newDomain (World.start files live)

/-- The command reports a failure, after dnsdist did not take the domain up. -/
structure FailsAtDnsdist : Prop where
  status : (T.change newDomain files live).1 ≠ 0
  reached : T.dnsdist ∈ (T.change newDomain files live).2.log
  failed : T.fails T.dnsdist ≠ 0

/-- Names, certificate and key are those from before. -/
def Undone : Prop := (T.change newDomain files live).2.files = files

/-- Certificate and key for the new domain are the ones that were served before. -/
def SameCertificate : Prop :=
  ∀ cert key, T.issue newDomain (live newDomain).isSome = some (cert, key) →
    files.fullchain = some cert ∧ files.privkey = some key

/-- Every file that is there has one line. -/
def OneLineEach : Prop := ∀ f text, files.names f = some text → OneLine text

/-- What is served after `certbot`. -/
def servedAfter : Files D :=
  match T.issue newDomain (live newDomain).isSome with
  | some (cert, key) => { files with fullchain := some cert, privkey := some key }
  | none => files

variable {T newDomain files live}

/-- Before `install_cert`. -/
def remembering (newDomain : Text) (files : Files D) (live : Text → Option (D × D)) : Core D :=
  ⟨files, live, newDomain, fun f => remembered (files.names f), false⟩

/-- After `install_cert`. -/
def certified (T : Tools D) (newDomain : Text) (files : Files D) (live : Text → Option (D × D)) :
    Core D :=
  ((remembering newDomain files live).asked.issued T).copied

theorem setDotDomain_ends (hfail : T.fails T.dnsdist ≠ 0) (hback : T.WritesBack) :
    Triple false (At T (World.start files live).core) (T.setDotDomain newDomain)
      (Ends T (certified T newDomain files live).rolledBack.files) := by
  have hQ : Admits T (Ends T (certified T newDomain files live).rolledBack.files) := admits_ends _
  have hremember : Triple false (At T (World.start files live).core)
      (.assign fun w => { w with
        old := fun f => remembered (w.files.names f), domain := newDomain } : Script D)
      (onStatus (fun _ => At T (remembering newDomain files live))
        (Ends T (certified T newDomain files live).rolledBack.files)) := by
    rintro w ⟨hcore, hlog⟩
    have hfiles : w.files = files := congrArg Core.files hcore
    have hlive : w.live = live := congrArg Core.live hcore
    have hforced : w.forced = false := congrArg Core.forced hcore
    refine ⟨?_, hlog⟩
    show Core.mk w.files w.live newDomain (fun f => remembered (w.files.names f)) w.forced = _
    rw [hfiles, hlive, hforced]
    rfl
  have hreload : Triple false (AtNamed T (certified T newDomain files live)) T.reload
      (onStatus (fun _ _ => False) (Ends T (certified T newDomain files live).rolledBack.files)) := by
    rintro w ⟨names, hw⟩
    exact reload_spec (k := (certified T newDomain files live).named names) hfail hback w hw
  exact Triple.seq (checks_spec hQ newDomain) <| Triple.seq hremember <|
    Triple.seq (installCert_spec hQ) <| Triple.seq (writeNames_spec hQ) <|
    Triple.seq hreload fun _ h => h.elim

theorem certified_rolledBack : (certified T newDomain files live).rolledBack.files =
    { servedAfter T newDomain files live with
      names := fun f => restored (remembered (files.names f)) } := by
  let k := (remembering newDomain files live).asked.issued T
  have hlive : k.live k.domain = T.issue newDomain (live newDomain).isSome :=
    Function.update_self ..
  show (Core.copied k).rolledBack.files = _
  rw [Core.copied, servedAfter, hlive]
  cases T.issue newDomain (live newDomain).isSome with
  | none => rfl
  | some pair => rfl

/-- **`change_ends`** — the names are what is made of them from memory, certificate and key are the new
ones. -/
theorem change_ends (h : FailsAtDnsdist T newDomain files live) (hback : T.WritesBack) :
    (T.change newDomain files live).2.files = { servedAfter T newDomain files live with
      names := fun f => restored (remembered (files.names f)) } := by
  have hstart : At T (World.start files live).core (World.start files live) := ⟨rfl, List.not_mem_nil⟩
  rw [← certified_rolledBack]
  exact setDotDomain_ends h.failed hback _ hstart h.reached

/-- **`undone_iff`** — a failed change is undone exactly where `certbot` brought nothing new and the
files were one line each. -/
theorem undone_iff (h : FailsAtDnsdist T newDomain files live) (hback : T.WritesBack) :
    Undone T newDomain files live ↔ SameCertificate T newDomain files live ∧ OneLineEach files := by
  have hnames : (fun f => restored (remembered (files.names f))) = files.names ↔ OneLineEach files := by
    rw [funext_iff]
    exact forall_congr' fun f => restored_remembered_iff (files.names f)
  rw [Undone, change_ends h hback, ← hnames, SameCertificate, servedAfter]
  obtain ⟨names, fullchain, privkey⟩ := files
  cases T.issue newDomain (live newDomain).isSome with
  | none => simp
  | some pair =>
    obtain ⟨cert, key⟩ := pair
    simp only [Files.mk.injEq, Option.some.injEq, Prod.mk.injEq]
    constructor
    · rintro ⟨hnames, hcert, hkey⟩
      refine ⟨?_, hnames⟩
      rintro _ _ ⟨rfl, rfl⟩
      exact ⟨hcert.symm, hkey.symm⟩
    · rintro ⟨hsame, hnames⟩
      obtain ⟨hcert, hkey⟩ := hsame cert key ⟨rfl, rfl⟩
      exact ⟨hnames, hcert.symm, hkey.symm⟩

end Undone

/-! ## A domain that changes -/

/-- Every tool works, but `dnsdist` does not start: certificate and key are named after the domain. -/
def failingTools : Tools Text where
  fails tool := if tool = .restart then 1 else 0
  publicIp := lit "192.0.2.1"
  records _ := [lit "192.0.2.1"]
  recordsAgain _ := [lit "192.0.2.1"]
  issue domain _ := some (domain, domain)
  output _ := []
  scriptDir := lit "/opt/proxy-gateway"
  hasRenewHook := true
  hasUpdater := false
  savedPublicIp := true

/-- A host that serves `a.example`. -/
def served : Files Text where
  names
    | .confDomain | .dnsdistDomain => some (lit "a.example\n")
    | .certBasename => none
  fullchain := some (lit "a.example")
  privkey := some (lit "a.example")

theorem served_fails (newDomain : Text)
    (hname : newDomain = lit "a.example" ∨ newDomain = lit "b.example") :
    FailsAtDnsdist failingTools newDomain served fun _ => none := by
  rcases hname with rfl | rfl
  · exact ⟨by decide, by decide, by decide⟩
  · exact ⟨by decide, by decide, by decide⟩

theorem failingTools_writesBack : failingTools.WritesBack := fun _ => ⟨rfl, rfl⟩

/-- The domain set once more. -/
theorem same_domain_undone : Undone failingTools (lit "a.example") served fun _ => none := by
  refine (undone_iff (served_fails _ (.inl rfl)) failingTools_writesBack).mpr ⟨?_, ?_⟩
  · rintro cert key hissue
    obtain ⟨rfl, rfl⟩ := Prod.mk.inj (Option.some.inj hissue)
    exact ⟨rfl, rfl⟩
  · intro f text htext
    cases f with
    | certBasename => nomatch htext
    | _ =>
      refine ⟨lit "a.example", by decide, by decide, by decide, ?_⟩
      exact (Option.some.inj htext).symm

/-- Another domain: its certificate is served for the old one. -/
theorem new_certificate_stays : ¬ ∀ (D : Type) (T : Tools D) (newDomain : Text) (files : Files D)
    (live : Text → Option (D × D)), FailsAtDnsdist T newDomain files live → T.WritesBack →
      Undone T newDomain files live := by
  intro h
  have hundone := h Text failingTools (lit "b.example") served (fun _ => none)
    (served_fails _ (.inr rfl)) failingTools_writesBack
  have hcert := congrArg Files.fullchain hundone
  revert hcert
  decide

end ProxyGateway.Dns.DotDomain
