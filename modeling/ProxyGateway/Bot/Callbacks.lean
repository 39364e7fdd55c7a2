/-
# ProxyGateway.Bot.Callbacks — what `handle_callback` does, call by call

A branch of `handle_callback` changes the conversation of the chat, shows a text with a keyboard, and may
leave an operation to the thread pool, which shows its result in the same message.  `BotHost.branch` lists
these calls.  They come in one of seven shapes, and their effect on the tables of the bot is the one of
`Bot.Handlers` (`branch_does`).

Two things are easily overlooked.  `rules:presets` and `preset:` read `PRESETS`, which is not defined, and
raise.  And `fin:` hands the function `rules_menu` over where a keyboard is expected; the request that is
to carry it cannot be written, so the result is never shown.
-/
import ProxyGateway.Bot.Markup
import ProxyGateway.Bot.Menus

namespace ProxyGateway.Bot

open ProxyGateway.Lang ProxyGateway.Logic ProxyGateway.Dns ProxyGateway.Smart

/-! ## Calls -/

/-- The `keyboard` of `edit_async`. -/
inductive KeyboardArg where
  | rows (kb : Keyboard)
  /-- `keyboard=rules_menu` -/
  | function

inductive Call where
  /-- an assignment to `PENDING[chat_id]`, or its removal -/
  | pending (u : PendingUpdate)
  /-- `edit(cb, text, keyboard)` -/
  | edit (text : Text) (keyboard : Option Keyboard)
  /-- `edit_async(cb, text_fn, keyboard)` -/
  | editAsync (op : Op) (keyboard : KeyboardArg)
  /-- `edit_ios_async(cb, chat_id)` -/
  | editIosAsync
  /-- an expression that raises -/
  | raises

/-- What the views show, besides the menus. -/
structure Console extends Panel where
  /-- `op_status()`, `op_dot_status()` and `op_gfwlist_show()` -/
  status : Text
  dotStatus : Text
  gfwlistShow : Text
  /-- `get_port_description` -/
  portDescription : Text → Text

/-- A text with a keyboard. -/
def view (text : Text) (kb : Keyboard) : List Call := [.edit text (some kb)]

/-- The start of a conversation. -/
def ask (p : Pending) (text : Text) : List Call := [.pending (.put p), .edit text none]

/-- A text until the operation is done. -/
def launch (text : Text) (op : Op) (kb : Keyboard) : List Call :=
  [.edit text none, .editAsync op (.rows kb)]

def bold (t : Text) : Text := lit "<b>" ++ t ++ lit "</b>"

def codeOf (t : Text) : Text := lit "<code>" ++ t ++ lit "</code>"

/-- `SUPPORTED_EXIT_LINKS` -/
def supportedExitLinks : Text :=
  lit "ss:// vmess:// trojan:// vless:// hysteria2:// tuic:// anytls:// socks5:// http://"

/-! ## The branches -/

section Branches

variable (H : BotHost) (d : Console)

/-- `menu:` -/
def BotHost.navigateCalls (data : Text) : Option (List Call) :=
  if data = lit "menu:main" then
    some [.pending .pop, .edit (lit "选择一个操作：") (some mainMenu)]
  else if data = lit "menu:rules" then some (view (lit "🧭 <b>分流</b>") (rulesMenu H d.toPanel))
  else if data = lit "menu:policy" then
    some (view (lit "🎯 <b>分类 → 出口</b> 映射（点一个分类来修改目标）：") (policyMenu d.toWorld))
  else if data = lit "menu:exits" then
    some (launch (lit "⏳ 正在获取当前出口信息…") .other (exitsMenu d.toPanel))
  else if data = lit "menu:exits_del" then
    some (view (lit "选择要删除的出口：") (exitsDelMenu d.toWorld))
  else if data = lit "menu:dot" then some (view d.dotStatus dotMenu)
  else if data = lit "menu:logs" then some (view (lit "选择要查看日志的服务：") (servicesMenu d.toPanel))
  else if data = lit "menu:firewall" then
    some (view (lit "🔥 <b>防火墙管理</b>\n选择一个操作：") (firewallMenu d.toPanel))
  else if data = lit "menu:fw_del" then
    some (view (lit "选择要关闭的端口（22/tcp 不可关闭）：") (firewallDelMenu d.toPanel))
  else if data = lit "menu:fw_note" then
    some (view (lit "选择要修改备注的端口：") (firewallNoteMenu d.toPanel))
  else if data = lit "menu:gfwlist" then
    some (view (lit "🏷 <b>GFWList 管理</b>\n额外域名会被 spoof 到服务器 IP，流量走代理。")
      (gfwlistMenu d.toPanel))
  else if data = lit "menu:gfwl_del" then
    some (view (lit "选择要删除的域名：") (gfwlistDelMenu d.toWorld))
  else none

/-- The buttons that start a conversation, and the one that changes the DoT domain by force. -/
def startCalls (failed : Option Text) (data : Text) : Option (List Call) :=
  if data = lit "rules:set" then
    some <| ask .rulesSet <| lit "粘贴<b>整份</b>分流规则（首行优先）。示例：\n" ++
      lit "<pre>DOMAIN-SUFFIX,google.com,att\nGEOSITE,netflix,att\n" ++
      lit "GEOIP,cn,direct\nFINAL,att</pre>\n" ++
      lit "策略：出口名 / <code>direct</code> / <code>block</code>。\n发送 /cancel 取消。"
  else if data = lit "rules:add" then
    some <| ask .rulesAdd <| lit "发送要追加的<b>一条</b>规则，例如：\n" ++
      lit "<code>DOMAIN-SUFFIX,youtube.com,att</code>\n发送 /cancel 取消。"
  else if data = lit "rules:del" then
    some <| ask .rulesDel <| opShowRules (readFile d.rules) ++
      lit "\n\n发送要删除的<b>序号</b>，或 /cancel 取消。"
  else if data = lit "exit_add" then
    some <| ask .addExitLink <|
      lit "添加出口：直接粘贴一条节点链接即可，我会使用链接里的节点名称作为出口名。\n支持 " ++
      codeOf supportedExitLinks ++
      lit "。\n\n如果链接没有名称，也可以发 <code>出口名 链接</code> 指定名称。\n发送 /cancel 取消。"
  else if data = lit "dot:domain" then
    some <| ask .dotDomain <| lit "发送新的 DoT 域名，例如：\n" ++ lit "<code>dns.example.com</code>\n\n" ++
      lit "要求：该域名 A 记录必须已经指向本机公网 IP，否则不会修改当前配置。\n" ++
      lit "发送 /cancel 取消。"
  else if data = lit "dot:dns_remote" then
    some <| ask (.dotDns .remote) <| lit "发送新的国际 DNS。多个 DNS 用空格或逗号分隔。\n\n" ++
      lit "示例：\n<pre>1.1.1.1 8.8.8.8</pre>\n" ++ lit "发送 /cancel 取消。"
  else if data = lit "dot:dns_local" then
    some <| ask (.dotDns .local) <| lit "发送新的国内 DNS。多个 DNS 用空格或逗号分隔。\n\n" ++
      lit "示例：\n<pre>223.5.5.5 119.29.29.29</pre>\n" ++ lit "发送 /cancel 取消。"
  else if data = lit "dot:force_domain" then
    match failed with
    | some domain =>
      if domain = [] then some (view (lit "没有可强制更换的域名，请重新点更改域名。") dotMenu)
      else some <| launch (lit "⏳ 正在强制更换 DoT 域名为 " ++ codeOf (escape domain) ++ lit "…")
        (.forceSetDotDomain domain) dotMenu
    | none => some (view (lit "没有可强制更换的域名，请重新点更改域名。") dotMenu)
  else if data = lit "fw:add" then
    some <| ask .fwAdd <| lit "发送要放行的端口，格式：\n<code>端口/协议 [备注]</code>\n\n" ++
      lit "例如：\n<code>8080/tcp Web管理面板</code>\n<code>51820/udp WireGuard</code>\n\n" ++
      lit "发送 /cancel 取消。"
  else if let some portKey := behind (lit "fw_note:") data then
    let current := d.portDescription portKey
    let hint := if current = [] then lit "当前无备注\n"
      else lit "当前备注：" ++ escape current ++ lit "\n"
    some <| ask (.fwNoteText portKey) <| hint ++ lit "\n发送 " ++ bold (escape portKey) ++
      lit " 的新备注：\n发送 /cancel 取消，发送空格清除备注。"
  else if data = lit "gfwl:add" then
    some <| ask .gfwlAdd <| lit "发送要加入 GFWList 的<b>域名或 URL</b>：\n\n" ++ lit "支持格式：\n" ++
      lit "• <code>kfchost.com</code> → 匹配 *.kfchost.com\n" ++
      lit "• <code>https://kfchost.com/path</code> → 自动提取 kfchost.com\n\n" ++
      lit "⚠️ GFWList 是<b>后缀匹配</b>，添加 <code>kfchost.com</code> 会代理所有子域名（www/api 等）。\n" ++
      lit "发送 /cancel 取消。"
  else none

/-- The buttons of the firewall. -/
def firewallCalls (data : Text) : Option (List Call) :=
  if data = lit "fw:status" then
    some (launch (lit "⏳ 正在获取防火墙状态…") .other (firewallMenu d.toPanel))
  else if let some portKey := behind (lit "fw_del:") data then
    let port := before '/' portKey
    let value : Nat := port.foldl (fun n c => 10 * n + (c.toNat - 48)) 0
    let again := firewallDelMenu d.toPanel
    some <|
      if (after '/' portKey ∈ [lit "tcp", lit "udp"] && port ≠ [] && port.length ≤ 5 &&
          port.all Char.isDigit) = false then view (lit "端口参数无效。") again
      else if ¬ (1 ≤ value ∧ value ≤ 65535) then view (lit "端口范围无效。") again
      else if portKey = lit "22/tcp" then
        view (lit "🚫 <b>禁止关闭 22/tcp</b>（SSH 端口），这是出于安全考虑。") again
      else launch (lit "⏳ 正在关闭端口 " ++ escape portKey ++ lit "…") .other again
  else none

/-- The choice of a target for a new rule. -/
def BotHost.targetCalls (pending : Option Pending) (data : Text) : List Call :=
  let back := rulesMenu H d.toPanel
  match pending with
  | some (.ruleTarget typ value) =>
    let target := data.rtakeWhile (· != ':')
    if typ ∉ ruleTypes ∨ value = [] then view (lit "规则参数无效，请重试。") back
    else if validRuleTarget d.toWorld target = false then view (lit "目标出口不存在或已变化。") back
    else .pending .pop :: launch (lit "⏳ 正在添加规则…")
      (.addRule (typ ++ ',' :: value ++ ',' :: target)) (backKb (lit "menu:rules"))
  | _ => view (lit "操作已过期，请重新添加规则。") back

/-- `hint` -/
def typeHint (typ : Text) : Text :=
  if typ = lit "DOMAIN" then lit "完整域名，如 openai.com"
  else if typ = lit "DOMAIN-SUFFIX" then lit "域名后缀，如 google.com（匹配 *.google.com）"
  else if typ = lit "DOMAIN-KEYWORD" then lit "域名包含的关键词，如 netflix"
  else if typ = lit "IP-CIDR" then lit "IP 段，如 1.2.3.0/24"
  else if typ = lit "IP-CIDR6" then lit "IPv6 段，如 2001:db8::/32"
  else if typ = lit "GEOSITE" then lit "地理站点分类，如 telegram, netflix"
  else if typ = lit "GEOIP" then lit "国家代码，如 cn, us, jp"
  else lit "值"

/-- The buttons for new rules and for the GFWList. -/
def BotHost.rulesCalls (pending : Option Pending) (data : Text) : Option (List Call) :=
  if data = lit "rules:quick_add" then some (view (lit "选择规则类型：") ruleTypeMenu)
  else if data = lit "rules:import_set" then
    some <| ask .ruleImportUrl <| lit "发送规则集 URL，支持：\n" ++ lit "• Clash rule-provider YAML\n" ++
      lit "• Surge / Quantumult 列表\n" ++
      lit "• mihomo / Clash YAML 规则集（不支持 sing-box .srs）\n" ++ lit "• 纯文本域名列表\n\n" ++
      lit "发送 /cancel 取消。"
  else if data = lit "rules:refresh" then
    some (launch (lit "⏳ 正在刷新规则集…") .refreshRulesets (backKb (lit "menu:rules")))
  else if data = lit "rules:presets" then
    match presetsMenu with
    | some kb => some (view (lit "选择一个预设模板：") kb)
    | none => some [.raises]
  else if (behind (lit "preset:") data).isSome then some [.raises]
  else if let some typ := behind (lit "rt:") data then
    some <|
      if typ ∈ ruleTypes then ask (.ruleValue typ)
        (lit "输入 " ++ escape typ ++ lit " 的" ++ typeHint typ ++ lit "：\n发送 /cancel 取消。")
      else view (lit "不支持的规则类型。") (rulesMenu H d.toPanel)
  else if (behind (lit "rta:") data).isSome then some (H.targetCalls d pending data)
  else if data = lit "gfwl:import_set" then
    some <| ask .gfwlSetUrl <| lit "发送规则集 URL，会自动提取域名并合并到 GFWList：\n" ++
      lit "• Clash / Surge 规则\n" ++ lit "• 纯文本域名列表\n" ++ lit "• mihomo / sing-box 规则集\n" ++
      lit "已存在的域名会自动跳过。\n发送 /cancel 取消。"
  else if data = lit "gfwl:show" then some (view d.gfwlistShow (gfwlistMenu d.toPanel))
  else if let some domain := behind (lit "gfwl_del:") data then
    some <| launch (lit "⏳ 正在从 GFWList 移除 " ++ codeOf (escape domain) ++ lit " 并更新规则…")
      (.gfwlistDel domain) (gfwlistDelMenu d.toWorld)
  else none

/-- The views. -/
def viewCalls (data : Text) : Option (List Call) :=
  if data = lit "rules:show" then some (view (opShowRules (readFile d.rules)) (backKb (lit "menu:rules")))
  else if data = lit "act:status" then some (view d.status (backKb (lit "menu:main")))
  else if let some svc := behind (lit "logs:") data then
    some <|
      if svc ∈ services then
        launch (lit "📜 正在取 " ++ bold (escape svc) ++ lit " 日志…") .other (backKb (lit "menu:logs"))
      else view (lit "服务参数无效。") (backKb (lit "menu:logs"))
  else if data = lit "exits:check" then
    some (launch (lit "⏳ 正在检查出口连通性…") .checkExits (backKb (lit "menu:exits")))
  else none

/-- `pol:` -/
def BotHost.categoryCalls (data : Text) : List Call :=
  let changed := view (lit "分类已变化，请重新打开。") (policyMenu d.toWorld)
  match H.pyInt (before ':' (after ':' data)) with
  | none => changed
  | some idx =>
    if idx < 0 then changed
    else match d.policyMap[idx.toNat]? with
      | some (cat, tgt) =>
        view (lit "把分类 " ++ bold (escape cat) ++ lit "（现为 " ++ escape tgt ++ lit "）路由到哪里？")
          (policyTargetsMenu d.toWorld idx.toNat)
      | none => changed

/-- `ps:` -/
def BotHost.policyCalls (data : Text) : List Call :=
  let changed := view (lit "分类或目标出口已变化，请重新打开。") (policyMenu d.toWorld)
  let rest := after ':' data
  match (if ':' ∈ rest then H.pyInt (before ':' rest) else none) with
  | none => changed
  | some idx =>
    if idx < 0 then changed
    else match d.policyMap[idx.toNat]? with
      | some (cat, _) =>
        if validRuleTarget d.toWorld (after ':' rest) then
          launch (lit "⏳ 正在设置 " ++ bold (escape cat) ++ lit " → " ++ bold (escape (after ':' rest)) ++
            lit " 并重建分流（可能较久）…") (.setPolicy cat (after ':' rest)) (backKb (lit "menu:policy"))
        else changed
      | none => changed

/-- The actions. -/
def BotHost.actionCalls (data : Text) : List Call :=
  if data = lit "act:update_rules" then
    launch (lit "⏳ 正在更新规则，请稍候…") .updateRules (backKb (lit "menu:main"))
  else if data = lit "act:renew" then
    launch (lit "⏳ 正在续期证书，请稍候…") .renewCert (backKb (lit "menu:main"))
  else if data = lit "act:restart" then
    launch (lit "⏳ 正在重启服务…") .other (backKb (lit "menu:main"))
  else if data = lit "rules:set_final" then
    view (lit "选择兜底规则（未匹配规则的默认出口）：") (finalTargetMenu d.toWorld)
  else if let some target := behind (lit "fin:") data then
    if validRuleTarget d.toWorld target then
      [.edit (lit "⏳ 正在设置兜底规则 → " ++ bold (escape target) ++ lit "…") none,
        .editAsync (.setFinal target) .function]
    else view (lit "目标出口不存在或已变化。") (rulesMenu H d.toPanel)
  else if data = lit "rules:enable" then
    launch (lit "⏳ 正在启用 smart 分流…") (.setExit (lit "smart")) (backKb (lit "menu:rules"))
  else if let some name := behind (lit "exit:") data then
    if name ≠ lit "local" ∧ name ∉ d.exitNames then
      view (lit "出口不存在或已变化。") (backKb (lit "menu:exits"))
    else launch (lit "⏳ 正在切换出口到 " ++ bold (escape name) ++ lit "…") (.setExit name)
      (backKb (lit "menu:exits"))
  else if let some name := behind (lit "exitdel:") data then
    if name ∈ [lit "local", lit "smart"] ∨ name ∉ d.exitNames then
      view (lit "出口不存在、已变化或不可删除。") (backKb (lit "menu:exits"))
    else launch (lit "⏳ 正在删除出口 " ++ bold (escape name) ++ lit "…") (.delExit name)
      (backKb (lit "menu:exits"))
  else if data = lit "act:ios" then [.edit (lit "⏳ 正在生成 iOS 二维码…") none, .editIosAsync]
  else if (behind (lit "pol:") data).isSome then H.categoryCalls d data
  else if (behind (lit "ps:") data).isSome then H.policyCalls d data
  else view (lit "未知操作。") (backKb (lit "menu:main"))

/-- **`handle_callback`** of a button that is let through, group by group as in the source. -/
def BotHost.branch (pending : Option Pending) (failed : Option Text) (data : Text) : List Call :=
  ((H.navigateCalls d data <|> startCalls d failed data <|> firewallCalls d data <|>
    H.rulesCalls d pending data) <|> viewCalls d data).getD (H.actionCalls d data)

end Branches

/-! ## What the branches have in common -/

/-- The calls of a branch. -/
inductive Shape : List Call → Prop
  | view (text : Text) (kb : Keyboard) : Shape [.edit text (some kb)]
  | leave (text : Text) (kb : Keyboard) : Shape [.pending .pop, .edit text (some kb)]
  | ask (p : Pending) (text : Text) : Shape [.pending (.put p), .edit text none]
  | launch (text : Text) (op : Op) (kb : KeyboardArg) : Shape [.edit text none, .editAsync op kb]
  | add (text : Text) (op : Op) (kb : KeyboardArg) :
      Shape [.pending .pop, .edit text none, .editAsync op kb]
  | ios (text : Text) : Shape [.edit text none, .editIosAsync]
  | raises : Shape [.raises]

/-- What a call adds to the effect of those behind it. -/
def Call.effect : Call → Effect → Effect
  | .pending u, e => { e with pending := u }
  | .edit .., e => e
  | .editAsync op _, e => { e with later := some op }
  | .editIosAsync, e => { e with later := some .other }
  | .raises, _ => {}

/-- The effect of a branch on the tables of the bot. -/
def effectOf (calls : List Call) : Effect := calls.foldr Call.effect {}

/-- **`Does`** — a branch of one of the shapes, with this effect. -/
structure Does (calls : List Call) (e : Effect) : Prop where
  shape : Shape calls
  effect : effectOf calls = e

/-- The same of a group of branches, which may have none for the button. -/
inductive GroupDoes : Option (List Call) → Option Effect → Prop
  | none : GroupDoes none none
  | some {calls : List Call} {e : Effect} (h : Does calls e) : GroupDoes (some calls) (some e)

section Does

variable {H : BotHost} {d : Console} {data : Text} {p : Prop} [Decidable p]

theorem does_view (text : Text) (kb : Keyboard) : Does (view text kb) {} := ⟨.view .., rfl⟩

theorem does_ask (p : Pending) (text : Text) : Does (ask p text) { pending := .put p } :=
  ⟨.ask .., rfl⟩

theorem does_launch (text : Text) (op : Op) (kb : Keyboard) :
    Does (launch text op kb) { later := some op } := ⟨.launch .., rfl⟩

theorem does_ite {a b : List Call} {e f : Effect} (ha : Does a e) (hb : Does b f) :
    Does (if p then a else b) (if p then e else f) := by
  split
  · exact ha
  · exact hb

theorem group_ite {a b : Option (List Call)} {e f : Option Effect} (ha : GroupDoes a e)
    (hb : GroupDoes b f) : GroupDoes (if p then a else b) (if p then e else f) := by
  split
  · exact ha
  · exact hb

theorem group_orElse {a b : Option (List Call)} {e f : Option Effect} (ha : GroupDoes a e)
    (hb : GroupDoes b f) : GroupDoes (a <|> b) (e <|> f) := by
  cases ha with
  | none => exact hb
  | some h => exact .some h

theorem navigate_does (H : BotHost) (d : Console) (data : Text) :
    GroupDoes (H.navigateCalls d data) (navigate data) := by
  by_cases hmem : data ∈ [lit "menu:main", lit "menu:rules", lit "menu:policy", lit "menu:exits",
      lit "menu:exits_del", lit "menu:dot", lit "menu:logs", lit "menu:firewall", lit "menu:fw_del",
      lit "menu:fw_note", lit "menu:gfwlist", lit "menu:gfwl_del"]
  · simp only [List.mem_cons, List.not_mem_nil, or_false] at hmem
    rcases hmem with rfl | rfl | rfl | rfl | rfl | rfl | rfl | rfl | rfl | rfl | rfl | rfl
    · exact .some ⟨.leave .., rfl⟩
    · exact .some (does_view ..)
    · exact .some (does_view ..)
    · exact .some (does_launch ..)
    all_goals exact .some (does_view ..)
  · have hnone : H.navigateCalls d data = none ∧ navigate data = none := by
      simp only [List.mem_cons, List.not_mem_nil, or_false, not_or] at hmem
      simp [BotHost.navigateCalls, navigate, hmem]
    rw [hnone.1, hnone.2]
    exact .none

theorem start_does (d : Console) (failed : Option Text) (data : Text) :
    GroupDoes (startCalls d failed data) (startConversation failed data) := by
  refine group_ite (.some (does_ask ..)) (group_ite (.some (does_ask ..)) ?_)
  refine group_ite (.some (does_ask ..)) (group_ite (.some (does_ask ..)) ?_)
  refine group_ite (.some (does_ask ..)) (group_ite (.some (does_ask ..)) ?_)
  refine group_ite (.some (does_ask ..)) (group_ite ?_ (group_ite (.some (does_ask ..)) ?_))
  · cases failed with
    | none => exact .some (does_view ..)
    | some domain => exact group_ite (.some (does_view ..)) (.some (does_launch ..))
  · cases behind (lit "fw_note:") data with
    | some portKey => exact .some (does_ask ..)
    | none => exact group_ite (.some (does_ask ..)) .none

theorem firewall_does (d : Console) (data : Text) :
    GroupDoes (firewallCalls d data) (pressFirewall data) := by
  refine group_ite (.some (does_launch ..)) ?_
  cases behind (lit "fw_del:") data with
  | none => exact .none
  | some portKey =>
    have hclose : mayClose portKey = true ↔
        (after '/' portKey ∈ [lit "tcp", lit "udp"] && before '/' portKey ≠ [] &&
          (before '/' portKey).length ≤ 5 && (before '/' portKey).all Char.isDigit) = true ∧
        (1 ≤ (before '/' portKey).foldl (fun n c => 10 * n + (c.toNat - 48)) 0 ∧
          (before '/' portKey).foldl (fun n c => 10 * n + (c.toNat - 48)) 0 ≤ 65535) ∧
        portKey ≠ lit "22/tcp" := by
      simp only [mayClose, Bool.and_eq_true, decide_eq_true_eq, and_assoc]
    show GroupDoes (some _) (if mayClose portKey then some { later := some Op.other } else some {})
    split
    · next hfalse =>
      rw [if_neg fun h => Bool.false_ne_true (hfalse.symm.trans (hclose.mp h).1)]
      exact .some (does_view ..)
    split
    · next hrange =>
      rw [if_neg fun h => hrange (hclose.mp h).2.1]
      exact .some (does_view ..)
    split
    · next hssh =>
      rw [if_neg fun h => (hclose.mp h).2.2 hssh]
      exact .some (does_view ..)
    · next htrue hrange hssh =>
      rw [if_pos (hclose.mpr ⟨by simpa [and_assoc] using htrue, by simpa using hrange, hssh⟩)]
      exact .some (does_launch ..)

theorem target_does (H : BotHost) (d : Console) (pending : Option Pending) (data : Text) :
    Does (H.targetCalls d pending data) (chooseTarget d.toWorld pending data) := by
  cases pending with
  | none => exact does_view ..
  | some asked =>
    cases asked with
    | ruleTarget typ value =>
      exact does_ite (does_view ..) (does_ite (does_view ..) ⟨.add .., rfl⟩)
    | _ => exact does_view ..

theorem rules_does (H : BotHost) (d : Console) (pending : Option Pending) (data : Text) :
    GroupDoes (H.rulesCalls d pending data) (pressRules d.toWorld pending data) := by
  refine group_ite (.some (does_view ..)) (group_ite (.some (does_ask ..)) ?_)
  refine group_ite (.some (does_launch ..)) (group_ite (.some ⟨.raises, rfl⟩) ?_)
  refine group_ite (.some ⟨.raises, rfl⟩) ?_
  cases behind (lit "rt:") data with
  | some typ =>
    show GroupDoes (some (if typ ∈ ruleTypes then _ else _)) (if typ ∈ ruleTypes then _ else _)
    split
    · exact .some (does_ask ..)
    · exact .some (does_view ..)
  | none =>
    refine group_ite (.some (target_does ..)) (group_ite (.some (does_ask ..)) ?_)
    refine group_ite (.some (does_view ..)) ?_
    cases behind (lit "gfwl_del:") data with
    | some domain => exact .some (does_launch ..)
    | none => exact .none

theorem view_does (d : Console) (data : Text) : GroupDoes (viewCalls d data) (pressView data) := by
  unfold viewCalls pressView
  by_cases hshow : data = lit "rules:show"
  · rw [if_pos hshow, if_pos (.inl hshow)]
    exact .some (does_view ..)
  by_cases hstatus : data = lit "act:status"
  · rw [if_neg hshow, if_pos hstatus, if_pos (.inr hstatus)]
    exact .some (does_view ..)
  rw [if_neg hshow, if_neg hstatus, if_neg (not_or_intro hshow hstatus)]
  cases behind (lit "logs:") data with
  | some svc =>
    show GroupDoes (some (if svc ∈ services then _ else _)) (if svc ∈ services then _ else _)
    split
    · exact .some (does_launch ..)
    · exact .some (does_view ..)
  | none => exact group_ite (.some (does_launch ..)) .none

theorem category_does (H : BotHost) (d : Console) (data : Text) : Does (H.categoryCalls d data) {} := by
  unfold BotHost.categoryCalls
  dsimp only
  split
  · exact does_view ..
  split
  · exact does_view ..
  split
  · exact does_view ..
  · exact does_view ..

theorem policy_does (H : BotHost) (d : Console) (data : Text) :
    Does (H.policyCalls d data) (H.choosePolicy d.toWorld data) := by
  unfold BotHost.policyCalls BotHost.choosePolicy
  dsimp only
  cases if ':' ∈ after ':' data then H.pyInt (before ':' (after ':' data)) else none with
  | none => exact does_view ..
  | some idx =>
    refine does_ite (does_view ..) ?_
    cases d.policyMap[idx.toNat]? with
    | none => exact does_view ..
    | some entry => exact does_ite (does_launch ..) (does_view ..)

theorem action_does (H : BotHost) (d : Console) (data : Text) :
    Does (H.actionCalls d data) (H.pressAction d.toWorld data) := by
  refine does_ite (does_launch ..) (does_ite (does_launch ..) (does_ite (does_launch ..) ?_))
  refine does_ite (does_view ..) ?_
  cases behind (lit "fin:") data with
  | some target => exact does_ite ⟨.launch .., rfl⟩ (does_view ..)
  | none =>
    refine does_ite (does_launch ..) ?_
    cases behind (lit "exit:") data with
    | some name => exact does_ite (does_view ..) (does_launch ..)
    | none =>
      cases behind (lit "exitdel:") data with
      | some name => exact does_ite (does_view ..) (does_launch ..)
      | none =>
        refine does_ite ⟨.ios .., rfl⟩ (does_ite (category_does ..) ?_)
        exact does_ite (policy_does ..) (does_view ..)

/-- **`branch_does`** — every branch has one of the shapes, and the effect on the tables that
`Bot.Handlers` gives it. -/
theorem branch_does (H : BotHost) (d : Console) (st : BotState) (c : Callback) :
    Does (H.branch d (st.pending c.chat) (st.lastFailed c.chat) c.data) (H.press d.toWorld st c) := by
  have hgroup := group_orElse (group_orElse (navigate_does H d c.data)
    (group_orElse (start_does d (st.lastFailed c.chat) c.data)
      (group_orElse (firewall_does d c.data) (rules_does H d (st.pending c.chat) c.data))))
    (view_does d c.data)
  unfold BotHost.branch BotHost.press
  generalize (_ <|> viewCalls d c.data) = calls, (_ <|> pressView c.data) = effects at hgroup ⊢
  cases hgroup with
  | none => exact action_does ..
  | some h => exact h

end Does

end ProxyGateway.Bot
