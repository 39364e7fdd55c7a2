/-
# ProxyGateway.Bot.Handlers — every run of the bot, and the branches that it selects

The bot keeps three tables: the conversation that each chat is in, the DoT domain that failed last in
it, and the messages whose buttons are busy.  A message or a press of a button changes them, and may
start an operation, at once or in the thread pool; the pool carries its tasks out in any order, each in
whatever the files have become by then.

`installs` counts the command lines that start the installation and the tasks that are going to.  A
step adds one to it if it is a press of `rules:refresh` that is accepted, and none otherwise
(`step_installs`).  So in a run without such a press the installation is never started
(`dispatched_of_reaches`).
-/
import ProxyGateway.Bot.Operations

namespace ProxyGateway.Bot

open ProxyGateway.Lang ProxyGateway.Logic ProxyGateway.Dns ProxyGateway.Smart

/-! ## State -/

/-- What a chat is asked for: an entry of `PENDING`. -/
inductive Pending where
  | addExitLink
  | rulesSet
  | rulesAdd
  | rulesDel
  | dotDomain
  | dotDns (kind : DnsKind)
  | fwAdd
  | fwNoteText (portKey : Text)
  | gfwlAdd
  | ruleValue (typ : Text)
  | ruleTarget (typ value : Text)
  | ruleImportUrl
  | gfwlSetUrl
  deriving DecidableEq, Repr

/-- A chat and a message in it. -/
abbrev BusyKey := Int × Option Int

/-- An operation in the thread pool, for a chat, with the message that it keeps busy. -/
structure Task where
  op : Op
  chat : Int
  busy : Option BusyKey
  deriving DecidableEq, Repr

structure BotState where
  pending : Int → Option Pending
  /-- `LAST_FAILED_DOT_DOMAIN` -/
  lastFailed : Int → Option Text
  busy : List BusyKey
  tasks : List Task
  /-- the command lines of the management script so far -/
  log : List (List Text)

def BotState.start : BotState := ⟨fun _ => none, fun _ => none, [], [], []⟩

/-- Who sends, and where from. -/
structure Sender where
  uid : Option Int
  chat : Int
  isPrivate : Bool

structure Message extends Sender where
  /-- `msg.get("text") or ""` -/
  text : Text

structure Callback extends Sender where
  message : Option Int
  data : Text

/-- What a handler does to `PENDING[chat_id]`. -/
inductive PendingUpdate where
  | keep
  | pop
  | put (p : Pending)

/-- What a handler does: an operation that it carries out itself, and one for the thread pool. -/
structure Effect where
  pending : PendingUpdate := .keep
  now : Option Op := none
  later : Option Op := none

/-! ## Handlers -/

/-- **`authorized`** -/
def authorized (admins : List Int) (s : Sender) : Bool := s.isPrivate && s.uid.any (· ∈ admins)

/-- **`valid_rule_target`** -/
def validRuleTarget (w : World) (target : Text) : Bool :=
  target ∈ [lit "direct", lit "block"] ||
    (target ∉ [lit "local", lit "smart"] && target ∈ w.exitNames)

/-- `RULE_TYPES` -/
def ruleTypes : List Text :=
  [lit "DOMAIN", lit "DOMAIN-SUFFIX", lit "DOMAIN-KEYWORD", lit "IP-CIDR", lit "IP-CIDR6",
    lit "GEOSITE", lit "GEOIP"]

/-- `SERVICES` -/
def services : List Text :=
  [lit "dnsdist", lit "sniproxy", lit "quic-proxy", lit "china-dns-race-proxy",
    lit "proxy-gateway-ios-profile", lit "proxy-gateway-tgbot"]

/-- A port that may be closed. -/
def mayClose (portKey : Text) : Bool :=
  let port := before '/' portKey
  let value := port.foldl (fun n c => 10 * n + (c.toNat - 48)) 0
  after '/' portKey ∈ [lit "tcp", lit "udp"] && port ≠ [] && port.length ≤ 5 &&
    port.all Char.isDigit && 1 ≤ value && value ≤ 65535 && portKey ≠ lit "22/tcp"

section Handlers

variable (H : BotHost) (w : World)

/-- The conversations of `handle_message`. -/
def BotHost.converse (raw : Text) : Pending → Effect
  | .addExitLink =>
    match H.parseAddExitInput w.exitNames raw with
    | none => {}
    | some (name, config) => { pending := .pop, later := some (.addExit name config) }
  | .rulesSet => { pending := .pop, later := some (.setRules raw) }
  | .rulesAdd => { pending := .pop, now := some (.addRule (strip raw)) }
  | .rulesDel => { pending := .pop, now := some (.delRule (strip raw)) }
  | .dotDomain => { pending := .pop, later := some (.setDotDomain (strip raw)) }
  | .dotDns kind => { pending := .pop, later := some (.setDns kind (strip raw)) }
  | .fwAdd => { pending := .pop, now := some .other }
  | .fwNoteText _ => { pending := .pop, now := some .other }
  | .gfwlAdd => { pending := .pop, later := some (.gfwlistAdd (strip raw)) }
  | .ruleValue typ =>
    if strip raw = [] then {} else { pending := .put (.ruleTarget typ (strip raw)) }
  | .ruleTarget .. => { pending := .pop }
  | .ruleImportUrl =>
    { pending := .pop, later := some (.importRuleset (strip raw) (lit "Proxy")) }
  | .gfwlSetUrl => { pending := .pop, later := some (.gfwlImportSet (strip raw)) }

/-- **`handle_message`** -/
def BotHost.handleMessage (admins : List Int) (st : BotState) (m : Message) : Effect :=
  let text := strip m.text
  if (lit "/id").isPrefixOf text then {}
  else if authorized admins m.toSender = false then {}
  else if text = lit "/cancel" then { pending := .pop }
  else if (lit "/").isPrefixOf text then
    { pending := .pop
      now := if (lit "/status").isPrefixOf text then some .other else none
      later := if [lit "/exits", lit "/fw"].any (·.isPrefixOf text) then some .other else none }
  else match st.pending m.chat with
    | some p => H.converse w m.text p
    | none => {}

/-- The part of `data` behind a prefix. -/
def behind (start data : Text) : Option Text :=
  if start.isPrefixOf data then some (data.drop start.length) else none

/-- `menu:` -/
def navigate (data : Text) : Option Effect :=
  if data = lit "menu:main" then some { pending := .pop }
  else if data = lit "menu:exits" then some { later := some .other }
  else if data ∈ [lit "menu:rules", lit "menu:policy", lit "menu:exits_del", lit "menu:dot",
      lit "menu:logs", lit "menu:firewall", lit "menu:fw_del", lit "menu:fw_note",
      lit "menu:gfwlist", lit "menu:gfwl_del"] then some {}
  else none

/-- The buttons that start a conversation, and the one that changes the DoT domain by force. -/
def startConversation (failed : Option Text) (data : Text) : Option Effect :=
  if data = lit "rules:set" then some { pending := .put .rulesSet }
  else if data = lit "rules:add" then some { pending := .put .rulesAdd }
  else if data = lit "rules:del" then some { pending := .put .rulesDel }
  else if data = lit "exit_add" then some { pending := .put .addExitLink }
  else if data = lit "dot:domain" then some { pending := .put .dotDomain }
  else if data = lit "dot:dns_remote" then some { pending := .put (.dotDns .remote) }
  else if data = lit "dot:dns_local" then some { pending := .put (.dotDns .local) }
  else if data = lit "dot:force_domain" then
    match failed with
    | some domain => if domain = [] then some {} else some { later := some (.forceSetDotDomain domain) }
    | none => some {}
  else if data = lit "fw:add" then some { pending := .put .fwAdd }
  else if let some portKey := behind (lit "fw_note:") data then
    some { pending := .put (.fwNoteText portKey) }
  else if data = lit "gfwl:add" then some { pending := .put .gfwlAdd }
  else none

/-- The buttons of the firewall. -/
def pressFirewall (data : Text) : Option Effect :=
  if data = lit "fw:status" then some { later := some .other }
  else if let some portKey := behind (lit "fw_del:") data then
    if mayClose portKey then some { later := some .other } else some {}
  else none

/-- The choice of a target for a new rule. -/
def chooseTarget (pending : Option Pending) (data : Text) : Effect :=
  match pending with
  | some (.ruleTarget typ value) =>
    let target := data.rtakeWhile (· != ':')
    if typ ∉ ruleTypes ∨ value = [] then {}
    else if validRuleTarget w target = false then {}
    else { pending := .pop, later := some (.addRule (typ ++ ',' :: value ++ ',' :: target)) }
  | _ => {}

/-- The buttons for new rules and for the GFWList.  `PRESETS` is not defined anywhere, so the presets
end in an exception, which the main loop catches. -/
def pressRules (pending : Option Pending) (data : Text) : Option Effect :=
  if data = lit "rules:quick_add" then some {}
  else if data = lit "rules:import_set" then some { pending := .put .ruleImportUrl }
  else if data = lit "rules:refresh" then some { later := some .refreshRulesets }
  else if data = lit "rules:presets" then some {}
  else if (behind (lit "preset:") data).isSome then some {}
  else if let some typ := behind (lit "rt:") data then
    if typ ∈ ruleTypes then some { pending := .put (.ruleValue typ) } else some {}
  else if (behind (lit "rta:") data).isSome then some (chooseTarget w pending data)
  else if data = lit "gfwl:import_set" then some { pending := .put .gfwlSetUrl }
  else if data = lit "gfwl:show" then some {}
  else if let some domain := behind (lit "gfwl_del:") data then
    some { later := some (.gfwlistDel domain) }
  else none

/-- The views. -/
def pressView (data : Text) : Option Effect :=
  if data = lit "rules:show" ∨ data = lit "act:status" then some {}
  else if let some svc := behind (lit "logs:") data then
    if svc ∈ services then some { later := some .other } else some {}
  else if data = lit "exits:check" then some { later := some .checkExits }
  else none

/-- The category and the target of `ps:`. -/
def BotHost.choosePolicy (data : Text) : Effect :=
  let rest := after ':' data
  match (if ':' ∈ rest then H.pyInt (before ':' rest) else none) with
  | none => {}
  | some idx =>
    if idx < 0 then {}
    else match w.policyMap[idx.toNat]? with
      | some (cat, _) =>
        if validRuleTarget w (after ':' rest) then
          { later := some (.setPolicy cat (after ':' rest)) }
        else {}
      | none => {}

/-- The actions. -/
def BotHost.pressAction (data : Text) : Effect :=
  if data = lit "act:update_rules" then { later := some .updateRules }
  else if data = lit "act:renew" then { later := some .renewCert }
  else if data = lit "act:restart" then { later := some .other }
  else if data = lit "rules:set_final" then {}
  else if let some target := behind (lit "fin:") data then
    if validRuleTarget w target then { later := some (.setFinal target) } else {}
  else if data = lit "rules:enable" then { later := some (.setExit (lit "smart")) }
  else if let some name := behind (lit "exit:") data then
    if name ≠ lit "local" ∧ name ∉ w.exitNames then {} else { later := some (.setExit name) }
  else if let some name := behind (lit "exitdel:") data then
    if name ∈ [lit "local", lit "smart"] ∨ name ∉ w.exitNames then {}
    else { later := some (.delExit name) }
  else if data = lit "act:ios" then { later := some .other }
  else if (behind (lit "pol:") data).isSome then {}
  else if (behind (lit "ps:") data).isSome then H.choosePolicy w data
  else {}

/-- What a button does, group by group as in the source. -/
def BotHost.press (st : BotState) (c : Callback) : Effect :=
  ((navigate c.data <|> startConversation (st.lastFailed c.chat) c.data <|> pressFirewall c.data <|>
    pressRules w (st.pending c.chat) c.data) <|> pressView c.data).getD (H.pressAction w c.data)

/-- The press of a button is let through. -/
def accepted (admins : List Int) (st : BotState) (c : Callback) : Bool :=
  authorized admins c.toSender && (c.chat, c.message) ∉ st.busy

/-- **`handle_callback`** -/
def BotHost.handleCallback (admins : List Int) (st : BotState) (c : Callback) : Effect :=
  if accepted admins st c then H.press w st c else {}

end Handlers

/-! ## Runs -/

inductive Event where
  | message (m : Message) (w : World)
  | callback (c : Callback) (w : World)
  /-- The thread pool carries its task number `i` out. -/
  | work (i : Nat) (w : World)

section Runs

variable (H : BotHost) (admins : List Int)

def PendingUpdate.apply (chat : Int) (pending : Int → Option Pending) :
    PendingUpdate → Int → Option Pending
  | .keep => pending
  | .pop => Function.update pending chat none
  | .put p => Function.update pending chat (some p)

/-- The effect of a handler; a press with a task makes its message busy. -/
def BotState.apply (st : BotState) (chat : Int) (busy : Option BusyKey) (w : World)
    (e : Effect) : BotState :=
  { st with
    pending := e.pending.apply chat st.pending
    busy := if e.later.isSome then busy.toList ++ st.busy else st.busy
    tasks := st.tasks ++ (e.later.map fun op => ⟨op, chat, busy⟩).toList
    log := st.log ++ (e.now.bind (H.command w)).toList }

/-- `LAST_FAILED_DOT_DOMAIN` after a task. -/
def BotHost.failedAfter (w : World) (t : Task) (failed : Int → Option Text) : Int → Option Text :=
  match t.op with
  | .setDotDomain domain =>
    let domain := dotDomainArg H.toHost domain
    Function.update failed t.chat (if isDotDomain domain ∧ w.ok = false then some domain else none)
  | .forceSetDotDomain domain =>
    if isDotDomain (dotDomainArg H.toHost domain) ∧ (w.ok = true ∨ w.saysForced = true) then
      Function.update failed t.chat none
    else failed
  | _ => failed

/-- The end of a task. -/
def BotState.finish (st : BotState) (i : Nat) (t : Task) (w : World) : BotState :=
  { st with
    lastFailed := H.failedAfter w t st.lastFailed
    busy := match t.busy with
      | some key => st.busy.filter (· ≠ key)
      | none => st.busy
    tasks := st.tasks.eraseIdx i
    log := st.log ++ (H.command w t.op).toList }

def step (st : BotState) : Event → Option BotState
  | .message m w => some (st.apply H m.chat none w (H.handleMessage w admins st m))
  | .callback c w =>
    some (st.apply H c.chat (some (c.chat, c.message)) w (H.handleCallback w admins st c))
  | .work i w => st.tasks[i]?.map fun t => st.finish H i t w

/-- A press of the button that refreshes the rule sets. -/
def Refreshes (st : BotState) : Event → Bool
  | .callback c _ => accepted admins st c && c.data = lit "rules:refresh"
  | _ => false

end Runs

/-! ## What a handler starts -/

/-- The effect does not refresh the rule sets. -/
def Effect.Quiet (e : Effect) : Prop :=
  e.now ≠ some .refreshRulesets ∧ e.later ≠ some .refreshRulesets

section Quiet

variable {H : BotHost} {w : World} {e : Effect} {data : Text}

theorem quiet_nothing : Effect.Quiet {} := ⟨nofun, nofun⟩

theorem quiet_pending (u : PendingUpdate) : Effect.Quiet { pending := u } := ⟨nofun, nofun⟩

theorem quiet_later {op : Op} (u : PendingUpdate)
    (h : decide (op = .refreshRulesets) = false) :
    Effect.Quiet { pending := u, later := some op } :=
  ⟨nofun, fun heq => of_decide_eq_false h (Option.some.inj heq)⟩

theorem quiet_now {op : Op} (u : PendingUpdate)
    (h : decide (op = .refreshRulesets) = false) :
    Effect.Quiet { pending := u, now := some op } :=
  ⟨fun heq => of_decide_eq_false h (Option.some.inj heq), nofun⟩

/-- No conversation ends in a refresh. -/
theorem quiet_converse (raw : Text) (p : Pending) : (H.converse w raw p).Quiet := by
  cases p with
  | addExitLink =>
    simp only [BotHost.converse]
    split
    · exact quiet_nothing
    · exact quiet_later _ rfl
  | rulesSet => exact quiet_later _ rfl
  | rulesAdd => exact quiet_now _ rfl
  | rulesDel => exact quiet_now _ rfl
  | dotDomain => exact quiet_later _ rfl
  | dotDns kind => exact quiet_later _ rfl
  | fwAdd => exact quiet_now _ rfl
  | fwNoteText portKey => exact quiet_now _ rfl
  | gfwlAdd => exact quiet_later _ rfl
  | ruleValue typ =>
    simp only [BotHost.converse]
    split
    · exact quiet_nothing
    · exact quiet_pending _
  | ruleTarget typ value => exact quiet_pending _
  | ruleImportUrl => exact quiet_later _ rfl
  | gfwlSetUrl => exact quiet_later _ rfl

theorem quiet_handleMessage (admins : List Int) (st : BotState) (m : Message) :
    (H.handleMessage w admins st m).Quiet := by
  simp only [BotHost.handleMessage]
  split
  · exact quiet_nothing
  split
  · exact quiet_nothing
  split
  · exact quiet_pending _
  split
  · constructor
    · show (if _ then some Op.other else none) ≠ some .refreshRulesets
      split <;> nofun
    · show (if _ then some Op.other else none) ≠ some .refreshRulesets
      split <;> nofun
  split
  · exact quiet_converse _ _
  · exact quiet_nothing

/-- A group of buttons that refreshes nothing. -/
def QuietGroup (o : Option Effect) : Prop := ∀ e ∈ o, Effect.Quiet e

theorem quietGroup_none : QuietGroup none := fun e he => absurd he (Option.not_mem_none e)

theorem quietGroup_some (h : e.Quiet) : QuietGroup (some e) := by
  intro e' he
  obtain rfl := Option.some.inj he
  exact h

theorem quietGroup_ite {p : Prop} [Decidable p] {a b : Option Effect} (ha : QuietGroup a)
    (hb : QuietGroup b) : QuietGroup (if p then a else b) := by
  split
  · exact ha
  · exact hb

theorem quietGroup_neg {p : Prop} [Decidable p] {a b : Option Effect} (hp : ¬ p)
    (hb : QuietGroup b) : QuietGroup (if p then a else b) := by
  rwa [if_neg hp]

theorem quiet_ite {p : Prop} [Decidable p] {a b : Effect} (ha : a.Quiet) (hb : b.Quiet) :
    (if p then a else b).Quiet := by
  split
  · exact ha
  · exact hb

theorem quiet_navigate (data : Text) : QuietGroup (navigate data) := by
  refine quietGroup_ite (quietGroup_some (quiet_pending _)) ?_
  refine quietGroup_ite (quietGroup_some (quiet_later _ rfl)) ?_
  exact quietGroup_ite (quietGroup_some quiet_nothing) quietGroup_none

theorem quiet_startConversation (failed : Option Text) (data : Text) :
    QuietGroup (startConversation failed data) := by
  have hask : ∀ p : Pending, QuietGroup (some { pending := .put p }) := by
    intro p
    exact quietGroup_some (quiet_pending _)
  refine quietGroup_ite (hask _) (quietGroup_ite (hask _) (quietGroup_ite (hask _) ?_))
  refine quietGroup_ite (hask _) (quietGroup_ite (hask _) (quietGroup_ite (hask _) ?_))
  refine quietGroup_ite (hask _) (quietGroup_ite ?_ (quietGroup_ite (hask _) ?_))
  · cases failed with
    | none => exact quietGroup_some quiet_nothing
    | some domain =>
      exact quietGroup_ite (quietGroup_some quiet_nothing) (quietGroup_some (quiet_later _ rfl))
  · cases behind (lit "fw_note:") data with
    | some portKey => exact hask _
    | none => exact quietGroup_ite (hask _) quietGroup_none

theorem quiet_pressFirewall (data : Text) : QuietGroup (pressFirewall data) := by
  refine quietGroup_ite (quietGroup_some (quiet_later _ rfl)) ?_
  cases behind (lit "fw_del:") data with
  | some portKey =>
    exact quietGroup_ite (quietGroup_some (quiet_later _ rfl)) (quietGroup_some quiet_nothing)
  | none => exact quietGroup_none

theorem quiet_chooseTarget (pending : Option Pending) (data : Text) :
    (chooseTarget w pending data).Quiet := by
  unfold chooseTarget
  split
  · exact quiet_ite quiet_nothing (quiet_ite quiet_nothing (quiet_later _ rfl))
  · exact quiet_nothing

/-- In its group the refresh stands alone. -/
theorem quiet_pressRules {pending : Option Pending} (h : data ≠ lit "rules:refresh") :
    QuietGroup (pressRules w pending data) := by
  refine quietGroup_ite (quietGroup_some quiet_nothing) ?_
  refine quietGroup_ite (quietGroup_some (quiet_pending _)) ?_
  refine quietGroup_neg h (quietGroup_ite (quietGroup_some quiet_nothing) ?_)
  refine quietGroup_ite (quietGroup_some quiet_nothing) ?_
  cases behind (lit "rt:") data with
  | some typ =>
    exact quietGroup_ite (quietGroup_some (quiet_pending _)) (quietGroup_some quiet_nothing)
  | none =>
    refine quietGroup_ite (quietGroup_some (quiet_chooseTarget _ _)) ?_
    refine quietGroup_ite (quietGroup_some (quiet_pending _)) ?_
    refine quietGroup_ite (quietGroup_some quiet_nothing) ?_
    cases behind (lit "gfwl_del:") data with
    | some domain => exact quietGroup_some (quiet_later _ rfl)
    | none => exact quietGroup_none

theorem quiet_pressView (data : Text) : QuietGroup (pressView data) := by
  refine quietGroup_ite (quietGroup_some quiet_nothing) ?_
  cases behind (lit "logs:") data with
  | some svc =>
    exact quietGroup_ite (quietGroup_some (quiet_later _ rfl)) (quietGroup_some quiet_nothing)
  | none => exact quietGroup_ite (quietGroup_some (quiet_later _ rfl)) quietGroup_none

theorem quiet_choosePolicy (data : Text) : (H.choosePolicy w data).Quiet := by
  unfold BotHost.choosePolicy
  dsimp only
  split
  · exact quiet_nothing
  refine quiet_ite quiet_nothing ?_
  split
  · exact quiet_ite (quiet_later _ rfl) quiet_nothing
  · exact quiet_nothing

theorem quiet_pressAction (data : Text) : (H.pressAction w data).Quiet := by
  refine quiet_ite (quiet_later _ rfl) (quiet_ite (quiet_later _ rfl) ?_)
  refine quiet_ite (quiet_later _ rfl) (quiet_ite quiet_nothing ?_)
  cases behind (lit "fin:") data with
  | some target => exact quiet_ite (quiet_later _ rfl) quiet_nothing
  | none =>
    refine quiet_ite (quiet_later _ rfl) ?_
    cases behind (lit "exit:") data with
    | some name => exact quiet_ite quiet_nothing (quiet_later _ rfl)
    | none =>
      cases behind (lit "exitdel:") data with
      | some name => exact quiet_ite quiet_nothing (quiet_later _ rfl)
      | none =>
        refine quiet_ite (quiet_later _ rfl) (quiet_ite quiet_nothing ?_)
        exact quiet_ite (quiet_choosePolicy _) quiet_nothing

theorem quietGroup_orElse {a b : Option Effect} (ha : QuietGroup a) (hb : QuietGroup b) :
    QuietGroup (a <|> b) := by
  cases a with
  | none => exact hb
  | some e => exact ha

/-- **`press_quiet`** — every button but one. -/
theorem press_quiet {st : BotState} {c : Callback} (h : c.data ≠ lit "rules:refresh") :
    (H.press w st c).Quiet := by
  have hgroups : QuietGroup ((navigate c.data <|> startConversation (st.lastFailed c.chat) c.data <|>
      pressFirewall c.data <|> pressRules w (st.pending c.chat) c.data) <|> pressView c.data) := by
    refine quietGroup_orElse (quietGroup_orElse (quiet_navigate _) ?_) (quiet_pressView _)
    refine quietGroup_orElse (quiet_startConversation _ _) ?_
    exact quietGroup_orElse (quiet_pressFirewall _) (quiet_pressRules h)
  unfold BotHost.press
  generalize ((navigate c.data <|> startConversation (st.lastFailed c.chat) c.data <|>
      pressFirewall c.data <|> pressRules w (st.pending c.chat) c.data) <|> pressView c.data) =
        group at hgroups ⊢
  cases group with
  | some e => exact hgroups e rfl
  | none => exact quiet_pressAction _

/-- The button that does refresh them. -/
theorem press_refresh {st : BotState} {c : Callback} (h : c.data = lit "rules:refresh") :
    H.press w st c = { later := some .refreshRulesets } := by
  have hnavigate : navigate (lit "rules:refresh") = none := rfl
  have hconversation : startConversation (st.lastFailed c.chat) (lit "rules:refresh") = none := rfl
  have hfirewall : pressFirewall (lit "rules:refresh") = none := rfl
  have hrules : pressRules w (st.pending c.chat) (lit "rules:refresh") =
      some { later := some .refreshRulesets } := rfl
  unfold BotHost.press
  rw [h, hnavigate, hconversation, hfirewall, hrules]
  rfl

end Quiet

/-! ## Counting the installations -/

section Installs

variable {H : BotHost} {admins : List Int} {st st' : BotState}

/-- A command line that starts the installation. -/
def isInstall (args : List Text) : Bool := dispatch args = .mainInstall

def Task.isRefresh (t : Task) : Bool := t.op = .refreshRulesets

/-- **`installs`** — the installations started so far, and those that a task is going to start. -/
def BotState.installs (st : BotState) : Nat :=
  st.log.countP isInstall + st.tasks.countP Task.isRefresh

/-- What an operation adds to the log. -/
theorem countP_command (w : World) (op : Op) :
    (H.command w op).toList.countP isInstall = if op = .refreshRulesets then 1 else 0 := by
  cases hcommand : H.command w op with
  | none =>
    have hop : op ≠ .refreshRulesets := by
      rintro rfl
      nomatch hcommand
    rw [if_neg hop]
    rfl
  | some args =>
    have hiff := dispatch_command_iff hcommand
    rw [Option.toList_some, List.countP_singleton]
    simp only [isInstall, hiff, decide_eq_true_eq]

/-- A handler adds what it does at once and what it leaves to the pool. -/
theorem installs_apply (chat : Int) (busy : Option BusyKey) (w : World) (e : Effect) :
    (st.apply H chat busy w e).installs =
      st.installs + (if e.now = some .refreshRulesets then 1 else 0) +
        (if e.later = some .refreshRulesets then 1 else 0) := by
  have hnow : (e.now.bind (H.command w)).toList.countP isInstall =
      if e.now = some .refreshRulesets then 1 else 0 := by
    cases e.now with
    | none => rfl
    | some op =>
      rw [Option.bind_some, countP_command]
      simp only [Option.some.injEq]
  have hlater : (e.later.map fun op => Task.mk op chat busy).toList.countP Task.isRefresh =
      if e.later = some .refreshRulesets then 1 else 0 := by
    cases e.later with
    | none => rfl
    | some op =>
      rw [Option.map_some, Option.toList_some, List.countP_singleton]
      simp only [Task.isRefresh, decide_eq_true_eq, Option.some.injEq]
  simp only [BotState.installs, BotState.apply, List.countP_append, hnow, hlater]
  omega

/-- A task that is carried out moves its installation from the tasks to the log. -/
theorem installs_finish {i : Nat} {t : Task} (w : World) (h : st.tasks[i]? = some t) :
    (st.finish H i t w).installs = st.installs := by
  obtain ⟨hlt, hget⟩ := List.getElem?_eq_some_iff.mp h
  have htasks : st.tasks.countP Task.isRefresh =
      (st.tasks.eraseIdx i).countP Task.isRefresh +
        if t.op = .refreshRulesets then 1 else 0 := by
    conv_lhs => rw [← List.take_append_drop i st.tasks, List.drop_eq_getElem_cons hlt, hget]
    rw [List.countP_append, List.countP_cons, List.eraseIdx_eq_take_drop_succ, List.countP_append]
    simp only [Task.isRefresh, decide_eq_true_eq]
    omega
  simp only [BotState.installs, BotState.finish, List.countP_append, countP_command, htasks]
  omega

/-- **`step_installs`** — an accepted press of the button adds one installation, and nothing else adds
any. -/
theorem step_installs {e : Event} (h : step H admins st e = some st') :
    st'.installs = st.installs + if Refreshes admins st e then 1 else 0 := by
  cases e with
  | message m w =>
    obtain rfl := Option.some.inj h
    obtain ⟨hnow, hlater⟩ := quiet_handleMessage (H := H) (w := w) admins st m
    rw [installs_apply, if_neg hnow, if_neg hlater]
    rfl
  | callback c w =>
    obtain rfl := Option.some.inj h
    have hrefresh : Refreshes admins st (.callback c w) =
      (accepted admins st c && c.data = lit "rules:refresh") := rfl
    rw [installs_apply, hrefresh, BotHost.handleCallback]
    cases accepted admins st c with
    | false => rfl
    | true =>
      simp only [if_true, Bool.true_and, decide_eq_true_eq]
      by_cases hdata : c.data = lit "rules:refresh"
      · rw [press_refresh hdata, if_pos hdata]
        simp
      · obtain ⟨hnow, hlater⟩ := press_quiet (H := H) hdata
        rw [if_neg hnow, if_neg hlater, if_neg hdata]
  | work i w =>
    obtain ⟨t, ht, rfl⟩ := Option.map_eq_some_iff.mp h
    rw [installs_finish w ht]
    simp [Refreshes]

/-- The accepted presses of `rules:refresh` along a run. -/
def presses (H : BotHost) (admins : List Int) (st : BotState) : List Event → Nat
  | [] => 0
  | e :: es => (if Refreshes admins st e then 1 else 0) +
      match step H admins st e with
      | some st' => presses H admins st' es
      | none => 0

theorem run_installs {es : List Event} (h : run (step H admins) st es = some st') :
    st'.installs = st.installs + presses H admins st es := by
  induction es generalizing st with
  | nil =>
    obtain rfl : st = st' := by simpa [run] using h
    rfl
  | cons e es ih =>
    obtain ⟨t, hstep, hrest⟩ := Option.bind_eq_some_iff.mp h
    rw [ih hrest, step_installs hstep, presses, hstep]
    exact Nat.add_assoc ..

/-- **`install_for_each_press`** — once the pool is idle, the installation has been started once for each
accepted press. -/
theorem install_for_each_press {es : List Event} (h : run (step H admins) .start es = some st)
    (hidle : st.tasks = []) : st.log.countP isInstall = presses H admins .start es := by
  have hrun := run_installs h
  unfold BotState.installs at hrun
  rw [hidle, List.countP_nil] at hrun
  have hstart : BotState.start.log.countP isInstall + BotState.start.tasks.countP Task.isRefresh = 0 :=
    rfl
  omega

/-- **`dispatched_of_reaches`** — in every run without an accepted press of `rules:refresh`, every command
line of the bot selects a branch of its own. -/
theorem dispatched_of_reaches (H : BotHost) (admins : List Int)
    (h : Reaches (step H admins) (fun st e => Refreshes admins st e = false) .start st) :
    ∀ args ∈ st.log, dispatch args ≠ .mainInstall := by
  have hzero : st.installs = 0 := by
    have hpres : ∀ s e s', BotState.installs s = 0 → Refreshes admins s e = false →
        step H admins s e = some s' → BotState.installs s' = 0 := by
      intro s e s' hinv hguard hstep
      rw [step_installs hstep, hinv, hguard]
      rfl
    exact @Reaches.invariant _ _ _ _ _ _ (fun s => s.installs = 0) rfl hpres h
  have hlog : st.log.countP isInstall = 0 := by
    unfold BotState.installs at hzero
    omega
  intro args hargs
  have hnot := List.countP_eq_zero.mp hlog args hargs
  simpa [isInstall] using hnot

end Installs

/-! ## Two runs -/

/-- ASCII text, decimal numbers, and links without names. -/
def plainBot : BotHost where
  toEditor := asciiEditor
  pyInt t := if t ≠ [] && t.all Char.isDigit then
      some (t.foldl (fun n c => 10 * n + (c.toNat - 48)) 0 : Nat)
    else none
  linkName := fun _ => []
  unquote := id

/-- A machine with one exit and no rules, on which all programs work. -/
def quietWorld : World where
  exitNames := [lit "local", lit "us"]
  policyMap := []
  rules := []
  extras := []
  remoteDns := lit "1.1.1.1"
  localDns := lit "223.5.5.5"
  usable := true
  download := none
  cut := 0
  ok := true
  saysForced := false

def admin : Sender := ⟨some 7, 7, true⟩

/-- The administrator switches to the exit. -/
theorem dispatched_of_reaches_exit :
    ∃ st, run (step plainBot [7]) .start
        [.callback ⟨admin, some 1, lit "exit:us"⟩ quietWorld, .work 0 quietWorld] = some st ∧
      st.log = [[lit "--set-exit", lit "us"]] ∧ ∀ args ∈ st.log, dispatch args ≠ .mainInstall := by
  have hstart : Reaches (step plainBot [7]) (fun st e => Refreshes [7] st e = false) .start .start :=
    .init
  have hpress := hstart.step (e := .callback ⟨admin, some 1, lit "exit:us"⟩ quietWorld)
    (show Refreshes [7] .start _ = false from by decide) rfl
  have hwork := hpress.step (e := .work 0 quietWorld) rfl rfl
  exact ⟨_, rfl, by decide, dispatched_of_reaches plainBot [7] hwork⟩

/-- The button under the rules starts the installation. -/
theorem refresh_installs :
    ¬ ∀ (H : BotHost) (admins : List Int) (events : List Event) (st : BotState),
      run (step H admins) .start events = some st → ∀ args ∈ st.log, dispatch args ≠ .mainInstall := by
  intro hclaim
  have hlog := hclaim plainBot [7]
    [.callback ⟨admin, some 1, lit "rules:refresh"⟩ quietWorld, .work 0 quietWorld] _ rfl
    [lit "--regen-smart"] (by decide)
  exact hlog (by decide)

end ProxyGateway.Bot
