/-
# ProxyGateway.Bot.Menus — the keyboards of the bot, and the 64 bytes of a button

A menu function reads the files and returns rows of buttons; what a button sends back when it is pressed
is its `callback_data`, of which Telegram takes 64 bytes.  One button with more makes it refuse the
message, menu and all.

Most buttons are constants.  The others carry the name of an exit, a position in the policy map and such
a name, the key of a port, or an entry of the extras file.  Nothing bounds an entry of the extras file,
so whether the keyboards fit is a question about the files (`menus_fit_iff`).
-/
import ProxyGateway.Bot.ExitNames
import ProxyGateway.Firewall.NftPorts
import ProxyGateway.Lang.Codecs
import ProxyGateway.Logic.Batches
import ProxyGateway.Smart.SetFinal
import Mathlib.Data.List.Dedup

namespace ProxyGateway.Bot

open ProxyGateway.Lang ProxyGateway.Logic ProxyGateway.Dns ProxyGateway.Smart

/-! ## Keyboards -/

structure Button where
  text : Text
  callbackData : Text
  deriving DecidableEq, Repr

/-- `inline_keyboard` -/
abbrev Keyboard := List (List Button)

/-- What the buttons send. -/
def Keyboard.data (kb : Keyboard) : List Text := kb.flatten.map Button.callbackData

/-- **`Keyboard.Fits`** — Telegram takes every button. -/
def Keyboard.Fits (kb : Keyboard) : Prop := ∀ d ∈ kb.data, utf8Length d ≤ 64

instance (kb : Keyboard) : Decidable kb.Fits := List.decidableBAll _ _

/-- What the menus read, besides the files that the operations read. -/
structure Panel extends World where
  /-- `runtime/current-exit` -/
  currentExit : Text
  /-- `_parse_nft_open_ports()` -/
  openPorts : List Firewall.Entry
  /-- `_gfwl_count()` -/
  gfwlCount : Nat
  /-- `_read_gfwlist_rulesets()` -/
  gfwlRulesets : List Text
  /-- `_is_active` -/
  isActive : Text → Text

/-! ## What the menus show -/

/-- **`_targets`** -/
def targets (w : World) : List Text := w.exitNames.filter (· ≠ lit "local")

/-- `_read_file(".../current-exit") or "local"` -/
def Panel.current (p : Panel) : Text := if p.currentExit = [] then lit "local" else p.currentExit

/-- `" · ".join(parts)` -/
def joinDots (parts : List Text) : Text := (lit " · ").intercalate parts

/-- **`rules_summary`** -/
def rulesSummary (H : BotHost) (txt : Text) : Text :=
  let entries := ((linesOf txt).filter isRuleEntry).map (·.splitOn ',')
  let ruleSets := entries.countP fun parts =>
    H.upper (strip (parts.head?.getD [])) ∈ [lit "RULE-SET", lit "RULESET"]
  let cats := (entries.filter (3 ≤ ·.length)).map fun parts => strip (parts.getLast?.getD [])
  joinDots <| [decimal entries.length ++ lit " 条规则"] ++
    (if ruleSets = 0 then [] else [decimal ruleSets ++ lit " 个规则集"]) ++
    [decimal cats.dedup.length ++ lit " 个分类"]

/-- `ports.sort(key=lambda x: (x["proto"], int(x["port"])))` -/
def sortPorts (ports : List Firewall.Entry) : List Firewall.Entry :=
  ports.mergeSort fun a b =>
    a.proto < b.proto || (a.proto = b.proto && Firewall.natOf a.port ≤ Firewall.natOf b.port)

/-! ## The menu functions -/

def backTo (target : Text) : List Button := [⟨lit "« 返回", target⟩]

/-- **`back_kb`** -/
def backKb (target : Text) : Keyboard := [backTo target]

/-- **`main_menu`** -/
def mainMenu : Keyboard :=
  [[⟨lit "📊 状态", lit "act:status"⟩, ⟨lit "🌐 出口", lit "menu:exits"⟩],
    [⟨lit "🧭 分流", lit "menu:rules"⟩, ⟨lit "🔄 更新规则", lit "act:update_rules"⟩],
    [⟨lit "🔐 DoT 管理", lit "menu:dot"⟩, ⟨lit "♻️ 重启服务", lit "act:restart"⟩],
    [⟨lit "📜 日志", lit "menu:logs"⟩, ⟨lit "📱 iOS 二维码", lit "act:ios"⟩],
    [⟨lit "🔥 防火墙", lit "menu:firewall"⟩, ⟨lit "🏷 GFWList", lit "menu:gfwlist"⟩]]

/-- **`rule_type_menu`** -/
def ruleTypeMenu : Keyboard :=
  [[⟨lit "🌐 域名全匹配 (DOMAIN)", lit "rt:DOMAIN"⟩,
      ⟨lit "🌍 域名后缀 (SUFFIX)", lit "rt:DOMAIN-SUFFIX"⟩],
    [⟨lit "🔑 域名关键词 (KEYWORD)", lit "rt:DOMAIN-KEYWORD"⟩,
      ⟨lit "📡 IP段 (IP-CIDR)", lit "rt:IP-CIDR"⟩],
    [⟨lit "🗺 地理站点 (GEOSITE)", lit "rt:GEOSITE"⟩, ⟨lit "🌏 地理IP (GEOIP)", lit "rt:GEOIP"⟩],
    backTo (lit "menu:rules")]

/-- **`dot_menu`** -/
def dotMenu : Keyboard :=
  [[⟨lit "🌐 更改域名", lit "dot:domain"⟩], [⟨lit "🌍 更改国际 DNS", lit "dot:dns_remote"⟩],
    [⟨lit "🇨🇳 更改国内 DNS", lit "dot:dns_local"⟩], [⟨lit "🔄 续期证书", lit "act:renew"⟩],
    backTo (lit "menu:main")]

/-- **`force_dot_domain_kb`** -/
def forceDotDomainKb : Keyboard :=
  [[⟨lit "⚠️ 仍要强制更换域名", lit "dot:force_domain"⟩], backTo (lit "menu:dot")]

/-- **`presets_menu`**, which raises: `PRESETS` is not defined. -/
def presetsMenu : Option Keyboard := none

/-- A target of a rule: every exit but `local`, and the two that are no exits. -/
def targetMenu (start : Text) (w : World) : Keyboard :=
  (targets w).map (fun e => [⟨lit "➡ " ++ e, start ++ e⟩]) ++
    [[⟨lit "🌍 直连", start ++ lit "direct"⟩, ⟨lit "🚫 拒绝", start ++ lit "block"⟩],
      backTo (lit "menu:rules")]

/-- **`rule_target_menu`**; type and value stay in `PENDING`. -/
def ruleTargetMenu (w : World) : Keyboard := targetMenu (lit "rta:") w

/-- **`final_target_menu`** -/
def finalTargetMenu (w : World) : Keyboard := targetMenu (lit "fin:") w

/-- A row for each thing to choose from, or one that says that there is none. -/
def listMenu (rows : Keyboard) (placeholder parent : Text) : Keyboard :=
  (if rows = [] then [[⟨placeholder, parent⟩]] else rows) ++ [backTo parent]

/-- **`firewall_menu`** -/
def firewallMenu (p : Panel) : Keyboard :=
  let n := p.openPorts.length
  let summary := if n = 0 then [] else lit "（" ++ decimal n ++ lit " 个端口）"
  [[⟨lit "📋 查看端口" ++ summary, lit "fw:status"⟩], [⟨lit "🔖 放行端口", lit "fw:add"⟩],
    [⟨lit "✖ 关闭端口", lit "menu:fw_del"⟩], [⟨lit "📝 修改备注", lit "menu:fw_note"⟩],
    backTo (lit "menu:main")]

/-- **`firewall_del_menu`** -/
def firewallDelMenu (p : Panel) : Keyboard :=
  let ports := (sortPorts p.openPorts).filter (·.key ≠ lit "22/tcp")
  listMenu
    (ports.map fun e =>
      let extra := if e.desc = [] then [] else lit " · " ++ e.desc.take 8
      [⟨lit "🗑 " ++ Firewall.portKey e.port e.proto ++ extra, lit "fw_del:" ++ e.key⟩])
    (lit "(没有可关闭的端口)") (lit "menu:firewall")

/-- **`firewall_note_menu`** -/
def firewallNoteMenu (p : Panel) : Keyboard :=
  listMenu
    ((sortPorts p.openPorts).map fun e =>
      let note := if e.desc = [] then [] else lit " — " ++ e.desc.take 16
      [⟨lit "✏️ " ++ Firewall.portKey e.port e.proto ++ note, lit "fw_note:" ++ e.key⟩])
    (lit "(没有开放端口)") (lit "menu:firewall")

/-- **`gfwlist_menu`** -/
def gfwlistMenu (p : Panel) : Keyboard :=
  let count (n : Nat) (unit : Text) : List Text := if n = 0 then [] else [decimal n ++ unit]
  let status := joinDots <| [decimal p.gfwlCount ++ lit " 条内置"] ++
    count (readExtras p.extras).length (lit " 条额外") ++ count p.gfwlRulesets.length (lit " 个规则集")
  [[⟨lit "📊 " ++ status, lit "gfwl:show"⟩],
    [⟨lit "➕ 添加域名", lit "gfwl:add"⟩, ⟨lit "📥 从规则集导入", lit "gfwl:import_set"⟩],
    [⟨lit "🗑 删除域名", lit "menu:gfwl_del"⟩], backTo (lit "menu:main")]

/-- **`gfwlist_del_menu`** -/
def gfwlistDelMenu (w : World) : Keyboard :=
  listMenu ((readExtras w.extras).map fun d => [⟨lit "🗑 " ++ d, lit "gfwl_del:" ++ d⟩])
    (lit "(没有可删除的域名)") (lit "menu:gfwlist")

/-- **`rules_menu`** -/
def rulesMenu (H : BotHost) (p : Panel) : Keyboard :=
  let smartMark := if p.current = lit "smart" then lit " ✅" else []
  let finalTarget := (H.finalTarget (readFile p.rules)).getD []
  let summary := rulesSummary H (readFile p.rules) ++
    if finalTarget = [] then [] else lit " · 兜底: " ++ finalTarget
  [[⟨lit "📊 " ++ summary, lit "rules:show"⟩], [⟨lit "🧩 添加快捷规则", lit "rules:quick_add"⟩],
    [⟨lit "📥 从 URL 导入规则集", lit "rules:import_set"⟩], [⟨lit "💡 预设模板", lit "rules:presets"⟩],
    [⟨lit "📋 查看全部规则", lit "rules:show"⟩, ⟨lit "🗑 删除一条", lit "rules:del"⟩],
    [⟨lit "🎯 分类→出口", lit "menu:policy"⟩, ⟨lit "↗️ 设置兜底规则", lit "rules:set_final"⟩],
    [⟨lit "🔄 刷新外部规则集", lit "rules:refresh"⟩],
    [⟨lit "⚡ 启用 smart 出口" ++ smartMark, lit "rules:enable"⟩],
    [⟨lit "« 返回主菜单", lit "menu:main"⟩]]

/-- **`policy_menu`** -/
def policyMenu (w : World) : Keyboard :=
  (if w.policyMap = [] then
    [[⟨lit "（还没有分类，先在服务器 --import-rules）", lit "menu:rules"⟩]] else []) ++
    w.policyMap.zipIdx.map (fun ((cat, tgt), i) =>
      [⟨cat ++ lit " → " ++ tgt, lit "pol:" ++ decimal i⟩]) ++ [backTo (lit "menu:rules")]

/-- The data of a button for a category and a target. -/
def policyData (idx : Nat) (target : Text) : Text := lit "ps:" ++ decimal idx ++ ':' :: target

/-- **`policy_targets_menu`**; three exits stand in a row. -/
def policyTargetsMenu (w : World) (idx : Nat) : Keyboard :=
  (Batches.ofList 3 ((targets w).map fun e => ⟨e, policyData idx e⟩)).all ++
    [[⟨lit "🌍 直连", policyData idx (lit "direct")⟩, ⟨lit "🚫 拒绝", policyData idx (lit "block")⟩],
      backTo (lit "menu:policy")]

/-- **`exits_menu`** -/
def exitsMenu (p : Panel) : Keyboard :=
  p.exitNames.map (fun name =>
      let marker := if name = p.current then lit " ✅" else []
      [⟨lit "➡ " ++ name ++ marker, lit "exit:" ++ name⟩]) ++
    [[⟨lit "➕ 添加出口", lit "exit_add"⟩, ⟨lit "🗑 删除出口", lit "menu:exits_del"⟩],
      [⟨lit "🩺 检查出口连通性", lit "exits:check"⟩], backTo (lit "menu:main")]

/-- **`exits_del_menu`** -/
def exitsDelMenu (w : World) : Keyboard :=
  listMenu ((targets w).map fun name => [⟨lit "🗑 " ++ name, lit "exitdel:" ++ name⟩])
    (lit "(没有可删除的出口)") (lit "menu:exits")

/-- **`services_menu`**, always with the prefix `logs`. -/
def servicesMenu (p : Panel) : Keyboard :=
  services.map (fun s =>
      let icon := if p.isActive s = lit "active" then lit "🟢" else lit "🔴"
      [⟨icon ++ ' ' :: s, lit "logs:" ++ s⟩]) ++ [backTo (lit "menu:main")]

/-- **`Builds`** — a keyboard that one of the menu functions returns. -/
inductive Builds (H : BotHost) (p : Panel) : Keyboard → Prop
  | main : Builds H p mainMenu
  | back (target : Text) (h : target ∈ [lit "menu:main", lit "menu:rules", lit "menu:logs",
      lit "menu:exits", lit "menu:policy"]) : Builds H p (backKb target)
  | ruleType : Builds H p ruleTypeMenu
  | ruleTarget : Builds H p (ruleTargetMenu p.toWorld)
  | finalTarget : Builds H p (finalTargetMenu p.toWorld)
  | presets (kb : Keyboard) (h : presetsMenu = some kb) : Builds H p kb
  | rules : Builds H p (rulesMenu H p)
  | policy : Builds H p (policyMenu p.toWorld)
  | policyTargets (idx : Nat) (h : idx < p.policyMap.length) :
      Builds H p (policyTargetsMenu p.toWorld idx)
  | exits : Builds H p (exitsMenu p)
  | exitsDel : Builds H p (exitsDelMenu p.toWorld)
  | dot : Builds H p dotMenu
  | forceDotDomain : Builds H p forceDotDomainKb
  | services : Builds H p (servicesMenu p)
  | firewall : Builds H p (firewallMenu p)
  | firewallDel : Builds H p (firewallDelMenu p)
  | firewallNote : Builds H p (firewallNoteMenu p)
  | gfwlist : Builds H p (gfwlistMenu p)
  | gfwlistDel : Builds H p (gfwlistDelMenu p.toWorld)

/-- **`Short`** — the names, the keys and the entries of the extras file leave room for what stands
before them. -/
structure Panel.Short (p : Panel) : Prop where
  extras : ∀ d ∈ readExtras p.extras, utf8Length d ≤ 55
  ports : ∀ e ∈ p.openPorts, utf8Length e.key ≤ 56
  exits : ∀ name ∈ targets p.toWorld, utf8Length name ≤ 56
  policies : ∀ i < p.policyMap.length, (decimal i).length ≤ 54 ∧
    ∀ name ∈ targets p.toWorld, (decimal i).length + utf8Length name ≤ 60

/-! ## The menus, one by one -/

section Fits

variable {w : World} {p : Panel} {H : BotHost}

theorem fits_append {a b : Keyboard} : Keyboard.Fits (a ++ b) ↔ a.Fits ∧ b.Fits := by
  simp only [Keyboard.Fits, Keyboard.data, List.flatten_append, List.map_append, List.mem_append,
    or_imp, forall_and]

theorem flatten_singletons {α β : Type} (f : α → β) (l : List α) :
    (l.map fun a => [f a]).flatten = l.map f := by
  rw [← List.flatMap_def, List.map_eq_flatMap]

/-- A button in each row. -/
theorem fits_map {α : Type} {l : List α} {b : α → Button} :
    Keyboard.Fits (l.map fun a => [b a]) ↔ ∀ a ∈ l, utf8Length (b a).callbackData ≤ 64 := by
  rw [Keyboard.Fits, Keyboard.data, flatten_singletons]
  simp only [List.mem_map, forall_exists_index, and_imp, forall_apply_eq_imp_iff₂]

/-- What a prefix leaves. -/
theorem fits_start_iff {start d : Text} {n : Nat} (h : utf8Length start + n = 64) :
    utf8Length (start ++ d) ≤ 64 ↔ utf8Length d ≤ n := by
  rw [utf8Length_append]
  omega

theorem utf8Length_decimal (n : Nat) : utf8Length (decimal n) = (decimal n).length := by
  refine utf8Length_ascii fun c hc => ?_
  have hdigit := decimal_digits n c hc
  simp only [Char.isDigit, Bool.and_eq_true, decide_eq_true_eq] at hdigit
  exact decide_eq_true (Nat.lt_of_le_of_lt (UInt32.le_iff_toNat_le.mp hdigit.2) (by decide))

theorem fits_listMenu {rows : Keyboard} {placeholder parent : Text} (h : utf8Length parent ≤ 64) :
    (listMenu rows placeholder parent).Fits ↔ rows.Fits := by
  have hparent : ∀ t : Text, Keyboard.Fits [[⟨t, parent⟩]] := by
    rintro t d hd
    obtain rfl := List.mem_singleton.mp hd
    exact h
  rw [listMenu, fits_append]
  refine (and_iff_left (hparent (lit "« 返回"))).trans ?_
  split
  · next hrows =>
    rw [hrows]
    exact iff_of_true (hparent _) (fun d hd => nomatch hd)
  · exact Iff.rfl

theorem fits_gfwlistDelMenu :
    (gfwlistDelMenu w).Fits ↔ ∀ d ∈ readExtras w.extras, utf8Length d ≤ 55 := by
  rw [gfwlistDelMenu, fits_listMenu (by decide), fits_map]
  exact forall₂_congr fun d _ => fits_start_iff (by decide)

theorem fits_exitsDelMenu :
    (exitsDelMenu w).Fits ↔ ∀ name ∈ targets w, utf8Length name ≤ 56 := by
  rw [exitsDelMenu, fits_listMenu (by decide), fits_map]
  exact forall₂_congr fun name _ => fits_start_iff (by decide)

theorem mem_sortPorts {ports : List Firewall.Entry} {e : Firewall.Entry} :
    e ∈ sortPorts ports ↔ e ∈ ports := (List.mergeSort_perm ports _).mem_iff

theorem fits_firewallNoteMenu :
    (firewallNoteMenu p).Fits ↔ ∀ e ∈ p.openPorts, utf8Length e.key ≤ 56 := by
  rw [firewallNoteMenu, fits_listMenu (by decide), fits_map]
  simp only [mem_sortPorts]
  exact forall₂_congr fun e _ => fits_start_iff (by decide)

theorem fits_firewallDelMenu :
    (firewallDelMenu p).Fits ↔
      ∀ e ∈ p.openPorts, e.key ≠ lit "22/tcp" → utf8Length e.key ≤ 57 := by
  rw [firewallDelMenu, fits_listMenu (by decide), fits_map]
  simp only [List.mem_filter, mem_sortPorts, decide_eq_true_eq, and_imp]
  exact forall₃_congr fun e _ _ => fits_start_iff (by decide)

theorem fits_targetMenu {start : Text} (h : utf8Length start = 4) :
    (targetMenu start w).Fits ↔ ∀ e ∈ targets w, utf8Length e ≤ 60 := by
  have hrest : Keyboard.Fits [[⟨lit "🌍 直连", start ++ lit "direct"⟩,
      ⟨lit "🚫 拒绝", start ++ lit "block"⟩], backTo (lit "menu:rules")] := by
    intro d hd
    simp only [Keyboard.data, backTo, List.flatten_cons, List.flatten_nil, List.cons_append,
      List.nil_append, List.map_cons, List.map_nil, List.mem_cons, List.not_mem_nil, or_false] at hd
    rcases hd with rfl | rfl | rfl
    · exact (fits_start_iff (n := 60) (by omega)).mpr (by decide)
    · exact (fits_start_iff (n := 60) (by omega)).mpr (by decide)
    · decide
  rw [targetMenu, fits_append, fits_map, and_iff_left hrest]
  exact forall₂_congr fun e _ => fits_start_iff (by omega)

theorem fits_policyMenu :
    (policyMenu w).Fits ↔ ∀ i < w.policyMap.length, (decimal i).length ≤ 60 := by
  have hfirst : Keyboard.Fits (if w.policyMap = [] then
      [[⟨lit "（还没有分类，先在服务器 --import-rules）", lit "menu:rules"⟩]] else []) := by
    split
    · decide
    · decide
  have hback : Keyboard.Fits [backTo (lit "menu:rules")] := by decide
  rw [policyMenu, fits_append, fits_append, and_iff_left hback, and_iff_right hfirst, fits_map]
  constructor
  · intro h i hi
    rw [← utf8Length_decimal]
    exact (fits_start_iff (by decide)).mp (h (w.policyMap[i], i) (List.mem_zipIdx_iff_getElem?.mpr
      (List.getElem?_eq_getElem hi)))
  · rintro h ⟨⟨cat, tgt⟩, i⟩ hmem
    obtain ⟨hi, -⟩ := List.getElem?_eq_some_iff.mp (List.mem_zipIdx_iff_getElem?.mp hmem)
    refine (fits_start_iff (n := 60) (by decide)).mpr ?_
    rw [utf8Length_decimal]
    exact h i hi

theorem utf8Length_policyData (idx : Nat) (target : Text) :
    utf8Length (policyData idx target) = 4 + (decimal idx).length + utf8Length target := by
  have hps : utf8Length (lit "ps:") = 3 := by decide
  have hcolon : (':' : Char).utf8Size = 1 := by decide
  rw [policyData, utf8Length_append, utf8Length_append, utf8Length_cons, utf8Length_decimal, hps, hcolon]
  omega

theorem fits_policyTargetsMenu {idx : Nat} :
    (policyTargetsMenu w idx).Fits ↔ (decimal idx).length ≤ 54 ∧
      ∀ name ∈ targets w, (decimal idx).length + utf8Length name ≤ 60 := by
  have hdata : (policyTargetsMenu w idx).data = (targets w).map (policyData idx) ++
      [policyData idx (lit "direct"), policyData idx (lit "block"), lit "menu:policy"] := by
    rw [policyTargetsMenu, Keyboard.data, List.flatten_append, Batches.flatten_all, List.map_append,
      List.map_map]
    rfl
  have hdirect : utf8Length (lit "direct") = 6 := by decide
  have hblock : utf8Length (lit "block") = 5 := by decide
  have hmenu : utf8Length (lit "menu:policy") ≤ 64 := by decide
  simp only [Keyboard.Fits, hdata, List.mem_append, List.mem_map, List.mem_cons, List.not_mem_nil,
    or_false]
  constructor
  · intro h
    have hlast := h _ (.inr (.inl rfl))
    rw [utf8Length_policyData, hdirect] at hlast
    refine ⟨by omega, fun name hname => ?_⟩
    have hdata := h _ (.inl ⟨name, hname, rfl⟩)
    rw [utf8Length_policyData] at hdata
    omega
  · rintro ⟨hidx, hnames⟩ d (⟨name, hname, rfl⟩ | rfl | rfl | rfl)
    · have hle := hnames name hname
      rw [utf8Length_policyData]
      omega
    · rw [utf8Length_policyData]
      omega
    · rw [utf8Length_policyData]
      omega
    · exact hmenu

theorem fits_exitsMenu :
    (exitsMenu p).Fits ↔ ∀ name ∈ p.exitNames, utf8Length name ≤ 59 := by
  have hrest : Keyboard.Fits [[⟨lit "➕ 添加出口", lit "exit_add"⟩, ⟨lit "🗑 删除出口", lit "menu:exits_del"⟩],
      [⟨lit "🩺 检查出口连通性", lit "exits:check"⟩], backTo (lit "menu:main")] := by decide
  rw [exitsMenu, fits_append, fits_map, and_iff_left hrest]
  exact forall₂_congr fun name _ => fits_start_iff (by decide)

theorem fits_backKb : ∀ target ∈ [lit "menu:main", lit "menu:rules", lit "menu:logs",
    lit "menu:exits", lit "menu:policy"], (backKb target).Fits := by decide

theorem fits_servicesMenu : (servicesMenu p).Fits := by
  have hdata : ∀ s ∈ services, utf8Length (lit "logs:" ++ s) ≤ 64 := by decide
  rw [servicesMenu, fits_append, fits_map]
  exact ⟨hdata, by decide⟩

theorem data_rulesMenu : (rulesMenu H p).data =
    [lit "rules:show", lit "rules:quick_add", lit "rules:import_set", lit "rules:presets",
      lit "rules:show", lit "rules:del", lit "menu:policy", lit "rules:set_final", lit "rules:refresh",
      lit "rules:enable", lit "menu:main"] := rfl

theorem data_firewallMenu : (firewallMenu p).data =
    [lit "fw:status", lit "fw:add", lit "menu:fw_del", lit "menu:fw_note", lit "menu:main"] := rfl

theorem data_gfwlistMenu : (gfwlistMenu p).data =
    [lit "gfwl:show", lit "gfwl:add", lit "gfwl:import_set", lit "menu:gfwl_del", lit "menu:main"] := rfl

/-- What fits if the menu for closing a port, that for exits and those for targets are to fit. -/
theorem exitNames_le (h : p.Short) : ∀ name ∈ p.exitNames, utf8Length name ≤ 56 := by
  intro name hname
  by_cases hlocal : name = lit "local"
  · rw [hlocal]
    decide
  · exact h.exits name (List.mem_filter.mpr ⟨hname, decide_eq_true hlocal⟩)

/-- **`menus_fit_iff`** — Telegram takes all keyboards if and only if the files are `Short`. -/
theorem menus_fit_iff (H : BotHost) (p : Panel) :
    (∀ kb, Builds H p kb → ∀ d ∈ kb.data, utf8Length d ≤ 64) ↔ p.Short := by
  constructor
  · intro h
    exact {
      extras := fits_gfwlistDelMenu.mp (h _ .gfwlistDel)
      ports := fits_firewallNoteMenu.mp (h _ .firewallNote)
      exits := fits_exitsDelMenu.mp (h _ .exitsDel)
      policies := fun i hi => fits_policyTargetsMenu.mp (h _ (.policyTargets i hi)) }
  · intro h kb hkb
    have hnames : ∀ n, 56 ≤ n → ∀ name ∈ targets p.toWorld, utf8Length name ≤ n :=
      fun n hn name hname => (h.exits name hname).trans hn
    show kb.Fits
    cases hkb with
    | main | ruleType | dot | forceDotDomain => decide
    | back target htarget => exact fits_backKb target htarget
    | ruleTarget => exact (fits_targetMenu (by decide)).mpr (hnames 60 (by omega))
    | finalTarget => exact (fits_targetMenu (by decide)).mpr (hnames 60 (by omega))
    | presets kb hnone => nomatch hnone
    | rules =>
      rw [Keyboard.Fits, data_rulesMenu]
      decide
    | policy => exact fits_policyMenu.mpr fun i hi => ((h.policies i hi).1).trans (by omega)
    | policyTargets idx hidx => exact fits_policyTargetsMenu.mpr (h.policies idx hidx)
    | exits => exact fits_exitsMenu.mpr fun name hname => (exitNames_le h name hname).trans (by omega)
    | exitsDel => exact fits_exitsDelMenu.mpr h.exits
    | services => exact fits_servicesMenu
    | firewall =>
      rw [Keyboard.Fits, data_firewallMenu]
      decide
    | firewallDel => exact fits_firewallDelMenu.mpr fun e he _ => (h.ports e he).trans (by omega)
    | firewallNote => exact fits_firewallNoteMenu.mpr h.ports
    | gfwlist =>
      rw [Keyboard.Fits, data_gfwlistMenu]
      decide
    | gfwlistDel => exact fits_gfwlistDelMenu.mpr h.extras

end Fits

/-! ## A long domain -/

/-- The panel of a machine with one exit and this extras file. -/
def extrasPanel (extras : Text) : Panel where
  toWorld := { quietWorld with extras }
  currentExit := lit "us"
  openPorts := []
  gfwlCount := 0
  gfwlRulesets := []
  isActive _ := lit "active"

/-- A name of 60 characters, which `op_gfwlist_add` takes. -/
def longDomain : Text := lit "static-assets.eu-west-1.media-delivery.video.example-cdn.net"

/-- Its button has nine bytes more. -/
theorem overlong_domain_button :
    ¬ ∀ (H : BotHost) (p : Panel), (∀ name ∈ targets p.toWorld, H.addExitTakes name = true) →
      (∀ d ∈ readExtras p.extras, matchesExtra d = true) →
      ∀ kb, Builds H p kb → ∀ d ∈ kb.data, utf8Length d ≤ 64 := by
  intro hclaim
  have hfits := hclaim plainBot (extrasPanel (longDomain ++ ['\n'])) (by decide) (by decide) _ .gfwlistDel
  have hread : readExtras (longDomain ++ ['\n']) = [longDomain] := by decide
  have hle := fits_gfwlistDelMenu.mp hfits longDomain
    (by rw [extrasPanel, hread]; exact List.mem_singleton_self _)
  exact absurd hle (by decide)

end ProxyGateway.Bot
