/-
# ProxyGateway.Bot.Offers — buttons, and whether the handlers honour them

A menu shows a value and puts it into the data of a button; `handle_callback` takes it out again and
checks it against the files.  Both are written out for each action on its own.  An `Offer` is a button
with what a press of it is meant to bring about; each menu is a list of offers (`buttons_eq`).

Pressed at once, an offer is carried out unless it is one of a few (`serves_iff`).  `smart` is offered as
a target and for deletion, like every exit but `local`, and the handlers refuse it.  The presets cannot
be shown at all.  And the target of a new rule is cut at its last colon, which only matters for an exit
that was not added by the bot.
-/
import ProxyGateway.Bot.Callbacks
import ProxyGateway.Lang.PyValue

namespace ProxyGateway.Bot

open ProxyGateway.Lang ProxyGateway.Logic ProxyGateway.Dns ProxyGateway.Smart

/-! ## Offers -/

/-- What a press is meant to bring about. -/
inductive Goal where
  | starts (op : Op)
  | shows (text : Text) (kb : Keyboard)
  | asks (p : Pending)

/-- The calls bring it about. -/
def Goal.Met (calls : List Call) : Goal → Prop
  | .starts op => ∃ kb, Call.editAsync op kb ∈ calls
  | .shows text kb => Call.edit text (some kb) ∈ calls
  | .asks p => Call.pending (.put p) ∈ calls

/-- The answers to a press that is not carried out. -/
def refusals : List Text :=
  [lit "目标出口不存在或已变化。", lit "出口不存在或已变化。", lit "出口不存在、已变化或不可删除。",
    lit "分类已变化，请重新打开。", lit "分类或目标出口已变化，请重新打开。",
    lit "操作已过期，请重新添加规则。", lit "规则参数无效，请重试。", lit "不支持的规则类型。",
    lit "未知模板。", lit "未知操作。", lit "端口参数无效。", lit "端口范围无效。", lit "服务参数无效。"]

/-- **`Serves`** — the handler does not raise, refuses nothing, and does what is meant. -/
structure Serves (goal : Goal) (calls : List Call) : Prop where
  runs : Call.raises ∉ calls
  accepts : ∀ text kb, Call.edit text kb ∈ calls → text ∉ refusals
  met : goal.Met calls

structure Offer where
  button : Button
  goal : Goal

section Menus

variable (H : BotHost) (d : Console)

def offerRules (text : Text) : Offer :=
  ⟨⟨text, lit "menu:rules"⟩, .shows (lit "🧭 <b>分流</b>") (rulesMenu H d.toPanel)⟩

def offerMain (text : Text) : Offer :=
  ⟨⟨text, lit "menu:main"⟩, .shows (lit "选择一个操作：") mainMenu⟩

def offerExits (text : Text) : Offer := ⟨⟨text, lit "menu:exits"⟩, .starts .other⟩

def offerPolicy (text : Text) : Offer :=
  ⟨⟨text, lit "menu:policy"⟩,
    .shows (lit "🎯 <b>分类 → 出口</b> 映射（点一个分类来修改目标）：") (policyMenu d.toWorld)⟩

/-- The offers of a list of targets, and of the two that are no exits. -/
def targetOffers (data : Text → Text) (goal : Text → Goal) (label : Text → Text) : List Offer :=
  (targets d.toWorld).map (fun e => ⟨⟨label e, data e⟩, goal e⟩) ++
    [⟨⟨lit "🌍 直连", data (lit "direct")⟩, goal (lit "direct")⟩,
      ⟨⟨lit "🚫 拒绝", data (lit "block")⟩, goal (lit "block")⟩]

/-- `rule_target_menu`, for a rule of this type and value. -/
def ruleTargetOffers (typ value : Text) : List Offer :=
  targetOffers d (lit "rta:" ++ ·) (fun e => .starts (.addRule (typ ++ ',' :: value ++ ',' :: e)))
    (lit "➡ " ++ ·) ++ [offerRules H d (lit "« 返回")]

/-- `final_target_menu` -/
def finalTargetOffers : List Offer :=
  targetOffers d (lit "fin:" ++ ·) (fun e => .starts (.setFinal e)) (lit "➡ " ++ ·) ++
    [offerRules H d (lit "« 返回")]

/-- What the press of a category shows. -/
def categoryText (cat tgt : Text) : Text :=
  lit "把分类 " ++ bold (escape cat) ++ lit "（现为 " ++ escape tgt ++ lit "）路由到哪里？"

/-- `policy_menu` -/
def policyOffers : List Offer :=
  (if d.policyMap = [] then [offerRules H d (lit "（还没有分类，先在服务器 --import-rules）")] else []) ++
    d.policyMap.zipIdx.map (fun ((cat, tgt), i) =>
      ⟨⟨cat ++ lit " → " ++ tgt, lit "pol:" ++ decimal i⟩,
        .shows (categoryText cat tgt) (policyTargetsMenu d.toWorld i)⟩) ++
    [offerRules H d (lit "« 返回")]

/-- `policy_targets_menu`, for a category. -/
def policyTargetsOffers (idx : Nat) (cat : Text) : List Offer :=
  targetOffers d (policyData idx) (fun e => .starts (.setPolicy cat e)) id ++
    [offerPolicy d (lit "« 返回")]

/-- `exits_menu` -/
def exitsOffers : List Offer :=
  d.exitNames.map (fun name =>
      ⟨⟨lit "➡ " ++ name ++ (if name = d.current then lit " ✅" else []), lit "exit:" ++ name⟩,
        .starts (.setExit name)⟩) ++
    [⟨⟨lit "➕ 添加出口", lit "exit_add"⟩, .asks .addExitLink⟩,
      ⟨⟨lit "🗑 删除出口", lit "menu:exits_del"⟩,
        .shows (lit "选择要删除的出口：") (exitsDelMenu d.toWorld)⟩,
      ⟨⟨lit "🩺 检查出口连通性", lit "exits:check"⟩, .starts .checkExits⟩, offerMain (lit "« 返回")]

/-- `exits_del_menu` -/
def exitsDelOffers : List Offer :=
  (if targets d.toWorld = [] then [offerExits (lit "(没有可删除的出口)")]
    else (targets d.toWorld).map fun name =>
      ⟨⟨lit "🗑 " ++ name, lit "exitdel:" ++ name⟩, .starts (.delExit name)⟩) ++
    [offerExits (lit "« 返回")]

/-- `rules_menu`.  The presets would be shown under their heading. -/
def rulesOffers : List Offer :=
  let texts := (rulesMenu H d.toPanel).flatten.map Button.text
  let goals : List (Text × Goal) :=
    [(lit "rules:show", .shows (opShowRules (readFile d.rules)) (backKb (lit "menu:rules"))),
      (lit "rules:quick_add", .shows (lit "选择规则类型：") ruleTypeMenu),
      (lit "rules:import_set", .asks .ruleImportUrl),
      (lit "rules:presets", .shows (lit "选择一个预设模板：") (presetsMenu.getD [])),
      (lit "rules:show", .shows (opShowRules (readFile d.rules)) (backKb (lit "menu:rules"))),
      (lit "rules:del", .asks .rulesDel),
      (lit "menu:policy", (offerPolicy d []).goal),
      (lit "rules:set_final", .shows (lit "选择兜底规则（未匹配规则的默认出口）：")
        (finalTargetMenu d.toWorld)),
      (lit "rules:refresh", .starts .refreshRulesets),
      (lit "rules:enable", .starts (.setExit (lit "smart"))),
      (lit "menu:main", (offerMain []).goal)]
  texts.zipWith (fun text (data, goal) => ⟨⟨text, data⟩, goal⟩) goals

/-- **`Offered`** — an offer of one of the seven menus; for the targets of a new rule, while the chat is
asked for one. -/
inductive Offered (pending : Option Pending) : Offer → Prop
  | ruleTarget {o : Offer} (typ value : Text) (htyp : typ ∈ ruleTypes) (hvalue : value ≠ [])
      (hpending : pending = some (.ruleTarget typ value)) (ho : o ∈ ruleTargetOffers H d typ value) :
      Offered pending o
  | finalTarget {o : Offer} (ho : o ∈ finalTargetOffers H d) : Offered pending o
  | policy {o : Offer} (ho : o ∈ policyOffers H d) : Offered pending o
  | policyTargets {o : Offer} (idx : Nat) (cat tgt : Text) (hcat : d.policyMap[idx]? = some (cat, tgt))
      (ho : o ∈ policyTargetsOffers d idx cat) : Offered pending o
  | exits {o : Offer} (ho : o ∈ exitsOffers d) : Offered pending o
  | exitsDel {o : Offer} (ho : o ∈ exitsDelOffers d) : Offered pending o
  | rules {o : Offer} (ho : o ∈ rulesOffers H d) : Offered pending o

end Menus

/-- **`Takes`** — the button is not the one of the presets, offers no `smart` as a target or for
deletion, and no target with a colon for a new rule. -/
def Takes (data : Text) : Prop :=
  data ≠ lit "rules:presets" ∧
    (∀ e ∈ behind (lit "rta:") data, e ≠ lit "smart" ∧ ':' ∉ e) ∧
    (∀ e ∈ behind (lit "fin:") data, e ≠ lit "smart") ∧
    (∀ rest ∈ behind (lit "ps:") data, after ':' rest ≠ lit "smart") ∧
    ∀ e ∈ behind (lit "exitdel:") data, e ≠ lit "smart"

instance (data : Text) : Decidable (Takes data) := inferInstanceAs (Decidable (_ ∧ _))

/-! ## The menus are their offers -/

section Buttons

variable (H : BotHost) (d : Console)

/-- **`buttons_eq`** — every menu shows its offers and nothing else. -/
theorem buttons_eq :
    (∀ typ value, (ruleTargetMenu d.toWorld).flatten =
      (ruleTargetOffers H d typ value).map Offer.button) ∧
    (finalTargetMenu d.toWorld).flatten = (finalTargetOffers H d).map Offer.button ∧
    (policyMenu d.toWorld).flatten = (policyOffers H d).map Offer.button ∧
    (∀ idx cat, (policyTargetsMenu d.toWorld idx).flatten =
      (policyTargetsOffers d idx cat).map Offer.button) ∧
    (exitsMenu d.toPanel).flatten = (exitsOffers d).map Offer.button ∧
    (exitsDelMenu d.toWorld).flatten = (exitsDelOffers d).map Offer.button ∧
    (rulesMenu H d.toPanel).flatten = (rulesOffers H d).map Offer.button := by
  refine ⟨fun typ value => ?_, ?_, ?_, fun idx cat => ?_, ?_, ?_, rfl⟩
  · simp [ruleTargetMenu, targetMenu, ruleTargetOffers, targetOffers, List.flatten_append,
      flatten_singletons, backTo, offerRules, Function.comp_def]
  · simp [finalTargetMenu, targetMenu, finalTargetOffers, targetOffers, List.flatten_append,
      flatten_singletons, backTo, offerRules, Function.comp_def]
  · simp only [policyMenu, policyOffers, List.flatten_append, List.map_append, List.map_map,
      flatten_singletons]
    congr 1
    congr 1
    split <;> rfl
  · rw [policyTargetsMenu, List.flatten_append, Batches.flatten_all]
    simp [policyTargetsOffers, targetOffers, backTo, offerPolicy, Function.comp_def]
  · simp [exitsMenu, exitsOffers, List.flatten_append, flatten_singletons, backTo, offerMain,
      Function.comp_def]
  · rw [exitsDelMenu, listMenu, exitsDelOffers, List.flatten_append, List.map_append]
    simp only [List.map_eq_nil_iff]
    congr 1
    split
    · rfl
    · rw [flatten_singletons, List.map_map]
      rfl

end Buttons

/-! ## Pressing -/

section Serves

variable {H : BotHost} {d : Console} {pending : Option Pending} {failed : Option Text}
  {goal : Goal} {text e : Text}

/-- No refusal begins with one of these. -/
theorem not_refusal (h : text.head?.any (· ∈ lit "⏳🧭选🎯把发添（粘") = true) : text ∉ refusals := by
  have hheads : ∀ t ∈ refusals, t.head?.any (· ∈ lit "⏳🧭选🎯把发添（粘") = false := by
    simp only [refusals, lit, String.reduceToList]
    decide
  intro hmem
  rw [hheads text hmem] at h
  nomatch h

theorem serves_view {kb : Keyboard} (h : text ∉ refusals) : Serves (.shows text kb) (view text kb) where
  runs := by simp [view]
  accepts t kb' hmem := by
    simp only [view, List.mem_singleton, Call.edit.injEq] at hmem
    exact hmem.1 ▸ h
  met := List.mem_singleton_self _

theorem serves_ask {p : Pending} (h : text ∉ refusals) : Serves (.asks p) (ask p text) where
  runs := by simp [ask]
  accepts t kb hmem := by
    simp only [ask, List.mem_cons, reduceCtorEq, Call.edit.injEq, List.not_mem_nil, or_false,
      false_or] at hmem
    exact hmem.1 ▸ h
  met := List.mem_cons_self

theorem serves_launch {op : Op} {kb : KeyboardArg} (h : text ∉ refusals) :
    Serves (.starts op) [.edit text none, .editAsync op kb] where
  runs := by simp
  accepts t kb' hmem := by
    simp only [List.mem_cons, reduceCtorEq, Call.edit.injEq, List.not_mem_nil, or_false] at hmem
    exact hmem.1 ▸ h
  met := ⟨kb, List.mem_cons_of_mem _ (List.mem_singleton_self _)⟩

theorem not_serves_refusal {kb : Keyboard} (h : text ∈ refusals) : ¬ Serves goal (view text kb) :=
  fun hserves => hserves.accepts text kb (List.mem_singleton_self _) h

theorem serves_ite {p : Prop} [Decidable p] {a b : List Call} (ha : Serves goal a)
    (hb : ¬ Serves goal b) : Serves goal (if p then a else b) ↔ p := by
  split
  · next hp => exact iff_of_true ha hp
  · next hp => exact iff_of_false hb hp

/-- An exit that is offered as a target is refused if it is `smart`, and only then. -/
theorem valid_iff_of_mem_targets {w : World} (he : e ∈ targets w ∨ e ∈ [lit "direct", lit "block"]) :
    validRuleTarget w e = true ↔ e ≠ lit "smart" := by
  have hsmart : lit "smart" ∉ [lit "direct", lit "block"] := by decide
  rcases he with he | he
  · obtain ⟨hmem, hlocal⟩ := List.mem_filter.mp he
    rw [decide_eq_true_eq] at hlocal
    simp only [validRuleTarget, Bool.or_eq_true, Bool.and_eq_true, decide_eq_true_eq, hmem, and_true]
    constructor
    · rintro (h | h) rfl
      · exact hsmart h
      · exact h (by decide)
    · intro hne
      refine .inr fun h => ?_
      rcases List.mem_cons.mp h with h | h
      · exact hlocal h
      · exact hne (List.mem_singleton.mp h)
  · refine iff_of_true ?_ fun h => hsmart (h ▸ he)
    rw [validRuleTarget, decide_eq_true he, Bool.true_or]

/-- The offers of a list of targets, one by one. -/
theorem mem_targetOffers {data : Text → Text} {goalOf : Text → Goal} {label : Text → Text} {o : Offer}
    (h : o ∈ targetOffers d data goalOf label) :
    ∃ e, (e ∈ targets d.toWorld ∨ e ∈ [lit "direct", lit "block"]) ∧
      o.button.callbackData = data e ∧ o.goal = goalOf e := by
  rcases List.mem_append.mp h with h | h
  · obtain ⟨e, he, rfl⟩ := List.mem_map.mp h
    exact ⟨e, .inl he, rfl, rfl⟩
  · simp only [List.mem_cons, List.not_mem_nil, or_false] at h
    rcases h with rfl | rfl
    · exact ⟨_, .inr (List.mem_cons_self ..), rfl, rfl⟩
    · exact ⟨_, .inr (List.mem_cons_of_mem _ (List.mem_singleton_self _)), rfl, rfl⟩

/-! ### The targets of a rule, the default and a category -/

theorem takes_rule : Takes (lit "rta:" ++ e) ↔ e ≠ lit "smart" ∧ ':' ∉ e := by
  have hrta : behind (lit "rta:") (lit "rta:" ++ e) = some e := rfl
  have hfin : behind (lit "fin:") (lit "rta:" ++ e) = none := rfl
  have hps : behind (lit "ps:") (lit "rta:" ++ e) = none := rfl
  have hdel : behind (lit "exitdel:") (lit "rta:" ++ e) = none := rfl
  have hpresets : lit "rta:" ++ e ≠ lit "rules:presets" := nofun
  simp [Takes, hrta, hfin, hps, hdel, hpresets]

theorem takes_final : Takes (lit "fin:" ++ e) ↔ e ≠ lit "smart" := by
  have hrta : behind (lit "rta:") (lit "fin:" ++ e) = none := rfl
  have hfin : behind (lit "fin:") (lit "fin:" ++ e) = some e := rfl
  have hps : behind (lit "ps:") (lit "fin:" ++ e) = none := rfl
  have hdel : behind (lit "exitdel:") (lit "fin:" ++ e) = none := rfl
  have hpresets : lit "fin:" ++ e ≠ lit "rules:presets" := nofun
  simp [Takes, hrta, hfin, hps, hdel, hpresets]

theorem takes_exitdel : Takes (lit "exitdel:" ++ e) ↔ e ≠ lit "smart" := by
  have hrta : behind (lit "rta:") (lit "exitdel:" ++ e) = none := rfl
  have hfin : behind (lit "fin:") (lit "exitdel:" ++ e) = none := rfl
  have hps : behind (lit "ps:") (lit "exitdel:" ++ e) = none := rfl
  have hdel : behind (lit "exitdel:") (lit "exitdel:" ++ e) = some e := rfl
  have hpresets : lit "exitdel:" ++ e ≠ lit "rules:presets" := nofun
  simp [Takes, hrta, hfin, hps, hdel, hpresets]

theorem takes_exit : Takes (lit "exit:" ++ e) := ⟨nofun, nofun, nofun, nofun, nofun⟩

theorem takes_category (i : Nat) : Takes (lit "pol:" ++ decimal i) := ⟨nofun, nofun, nofun, nofun, nofun⟩

theorem takes_policy (i : Nat) : Takes (policyData i e) ↔ e ≠ lit "smart" := by
  have hrta : behind (lit "rta:") (policyData i e) = none := rfl
  have hfin : behind (lit "fin:") (policyData i e) = none := rfl
  have hps : behind (lit "ps:") (policyData i e) = some (decimal i ++ ':' :: e) := rfl
  have hdel : behind (lit "exitdel:") (policyData i e) = none := rfl
  have hpresets : policyData i e ≠ lit "rules:presets" := nofun
  have hafter : after ':' (decimal i ++ ':' :: e) = e := after_append_cons (colon_not_mem_decimal i) e
  simp [Takes, hrta, hfin, hps, hdel, hpresets, hafter]

theorem serves_rule {typ value : Text} (htyp : typ ∈ ruleTypes) (hvalue : value ≠ [])
    (he : e ∈ targets d.toWorld ∨ e ∈ [lit "direct", lit "block"]) :
    Serves (.starts (.addRule (typ ++ ',' :: value ++ ',' :: e)))
      (H.branch d (some (.ruleTarget typ value)) failed (lit "rta:" ++ e)) ↔ Takes (lit "rta:" ++ e) := by
  have hbranch : H.branch d (some (.ruleTarget typ value)) failed (lit "rta:" ++ e) =
      H.targetCalls d (some (.ruleTarget typ value)) (lit "rta:" ++ e) := rfl
  rw [hbranch, takes_rule, BotHost.targetCalls]
  rw [if_neg (not_or_intro (not_not_intro htyp) hvalue)]
  by_cases hcolon : ':' ∈ e
  · -- another target is read, if any
    refine iff_of_false (fun hserves => ?_) fun h => h.2 hcolon
    have hread := not_mem_rtakeWhile ':' (lit "rta:" ++ e)
    generalize (lit "rta:" ++ e).rtakeWhile (· != ':') = target at hserves hread
    split at hserves
    · exact not_serves_refusal (.head _) hserves
    · obtain ⟨kb, hmem⟩ := hserves.met
      simp only [launch, List.mem_cons, reduceCtorEq, Call.editAsync.injEq, Op.addRule.injEq,
        List.append_cancel_left_eq, List.cons.injEq, true_and, List.not_mem_nil, or_false,
        false_or] at hmem
      exact hread (hmem.1 ▸ hcolon)
  · have hread : (lit "rta:" ++ e).rtakeWhile (· != ':') = e :=
      rtakeWhile_append_cons hcolon (lit "rta")
    rw [hread, and_iff_left hcolon, ← valid_iff_of_mem_targets he]
    cases validRuleTarget d.toWorld e with
    | false => exact iff_of_false (not_serves_refusal (.head _)) Bool.false_ne_true
    | true =>
      refine iff_of_true
        ⟨by simp [launch], fun t kb hmem => ?_, .rows (backKb (lit "menu:rules")), ?_⟩ rfl
      · simp only [Bool.true_eq_false, if_false, launch, List.mem_cons, reduceCtorEq, Call.edit.injEq,
          List.not_mem_nil, or_false, false_or] at hmem
        rw [hmem.1]
        decide
      · exact List.mem_cons_of_mem _ (List.mem_cons_of_mem _ (List.mem_singleton_self _))

theorem serves_final (he : e ∈ targets d.toWorld ∨ e ∈ [lit "direct", lit "block"]) :
    Serves (.starts (.setFinal e)) (H.branch d pending failed (lit "fin:" ++ e)) ↔
      Takes (lit "fin:" ++ e) := by
  have hbranch : H.branch d pending failed (lit "fin:" ++ e) =
      if validRuleTarget d.toWorld e then
        [.edit (lit "⏳ 正在设置兜底规则 → " ++ bold (escape e) ++ lit "…") none,
          .editAsync (.setFinal e) .function]
      else view (lit "目标出口不存在或已变化。") (rulesMenu H d.toPanel) := rfl
  rw [hbranch, takes_final, ← valid_iff_of_mem_targets he]
  exact serves_ite (serves_launch (not_refusal rfl)) (not_serves_refusal (.head _))

/-- The positions of the policy map are read back. -/
theorem serves_policy {i : Nat} {cat tgt : Text} (hcat : d.policyMap[i]? = some (cat, tgt))
    (hint : H.pyInt (decimal i) = some (i : Int))
    (he : e ∈ targets d.toWorld ∨ e ∈ [lit "direct", lit "block"]) :
    Serves (.starts (.setPolicy cat e)) (H.branch d pending failed (policyData i e)) ↔
      Takes (policyData i e) := by
  have hbranch : H.branch d pending failed (policyData i e) = H.policyCalls d (policyData i e) := rfl
  have hrest : after ':' (policyData i e) = decimal i ++ ':' :: e := rfl
  have hafter : after ':' (decimal i ++ ':' :: e) = e := after_append_cons (colon_not_mem_decimal i) e
  have hbefore : before ':' (decimal i ++ ':' :: e) = decimal i :=
    before_append_cons (colon_not_mem_decimal i) e
  have hmem : ':' ∈ decimal i ++ ':' :: e := by simp
  rw [hbranch, takes_policy, ← valid_iff_of_mem_targets he, BotHost.policyCalls]
  rw [hrest, hafter, hbefore, if_pos hmem, hint]
  dsimp only
  rw [if_neg (by omega), Int.toNat_natCast, hcat]
  have hrefusal : lit "分类或目标出口已变化，请重新打开。" ∈ refusals :=
    .tail _ (.tail _ (.tail _ (.tail _ (.head _))))
  exact serves_ite (serves_launch (not_refusal rfl)) (not_serves_refusal hrefusal)

theorem serves_category {i : Nat} {cat tgt : Text} (hcat : d.policyMap[i]? = some (cat, tgt))
    (hint : H.pyInt (decimal i) = some (i : Int)) :
    Serves (.shows (categoryText cat tgt) (policyTargetsMenu d.toWorld i))
      (H.branch d pending failed (lit "pol:" ++ decimal i)) := by
  have hbranch : H.branch d pending failed (lit "pol:" ++ decimal i) =
      H.categoryCalls d (lit "pol:" ++ decimal i) := rfl
  have hrest : after ':' (lit "pol:" ++ decimal i) = decimal i := rfl
  rw [hbranch, BotHost.categoryCalls]
  rw [hrest, before_of_not_mem (colon_not_mem_decimal i), hint]
  dsimp only
  rw [if_neg (by omega), Int.toNat_natCast, hcat]
  exact serves_view (not_refusal rfl)

/-! ### Exits -/

theorem serves_exit (he : e ∈ d.exitNames) :
    Serves (.starts (.setExit e)) (H.branch d pending failed (lit "exit:" ++ e)) := by
  have hbranch : H.branch d pending failed (lit "exit:" ++ e) =
      if e ≠ lit "local" ∧ e ∉ d.exitNames then
        view (lit "出口不存在或已变化。") (backKb (lit "menu:exits"))
      else launch (lit "⏳ 正在切换出口到 " ++ bold (escape e) ++ lit "…") (.setExit e)
        (backKb (lit "menu:exits")) := rfl
  rw [hbranch, if_neg fun h => h.2 he]
  exact serves_launch (not_refusal rfl)

theorem serves_exitdel (he : e ∈ targets d.toWorld) :
    Serves (.starts (.delExit e)) (H.branch d pending failed (lit "exitdel:" ++ e)) ↔
      Takes (lit "exitdel:" ++ e) := by
  obtain ⟨hmem, hlocal⟩ := List.mem_filter.mp he
  have hbranch : H.branch d pending failed (lit "exitdel:" ++ e) =
      if e ∈ [lit "local", lit "smart"] ∨ e ∉ d.exitNames then
        view (lit "出口不存在、已变化或不可删除。") (backKb (lit "menu:exits"))
      else launch (lit "⏳ 正在删除出口 " ++ bold (escape e) ++ lit "…") (.delExit e)
        (backKb (lit "menu:exits")) := rfl
  rw [hbranch, takes_exitdel]
  by_cases hsmart : e = lit "smart"
  · rw [if_pos (.inl (hsmart ▸ List.mem_cons_of_mem _ (List.mem_singleton_self _)))]
    exact iff_of_false (not_serves_refusal (.tail _ (.tail _ (.head _)))) fun h => h hsmart
  · rw [if_neg]
    · exact iff_of_true (serves_launch (not_refusal rfl)) hsmart
    · rintro (h | h)
      · rcases List.mem_cons.mp h with h | h
        · exact of_decide_eq_true hlocal h
        · exact hsmart (List.mem_singleton.mp h)
      · exact h hmem

/-! ### The other buttons -/

theorem serves_offerRules (label : Text) : Serves (offerRules H d label).goal
    (H.branch d pending failed (offerRules H d label).button.callbackData) := by
  have hbranch : H.branch d pending failed (lit "menu:rules") =
      view (lit "🧭 <b>分流</b>") (rulesMenu H d.toPanel) := rfl
  show Serves _ (H.branch d pending failed (lit "menu:rules"))
  rw [hbranch]
  exact serves_view (not_refusal rfl)

theorem serves_offerPolicy (label : Text) : Serves (offerPolicy d label).goal
    (H.branch d pending failed (offerPolicy d label).button.callbackData) := by
  have hbranch : H.branch d pending failed (lit "menu:policy") =
      view (lit "🎯 <b>分类 → 出口</b> 映射（点一个分类来修改目标）：") (policyMenu d.toWorld) := rfl
  show Serves _ (H.branch d pending failed (lit "menu:policy"))
  rw [hbranch]
  exact serves_view (not_refusal rfl)

theorem serves_offerExits (label : Text) : Serves (offerExits label).goal
    (H.branch d pending failed (offerExits label).button.callbackData) := by
  have hbranch : H.branch d pending failed (lit "menu:exits") =
      launch (lit "⏳ 正在获取当前出口信息…") .other (exitsMenu d.toPanel) := rfl
  show Serves _ (H.branch d pending failed (lit "menu:exits"))
  rw [hbranch]
  exact serves_launch (not_refusal rfl)

theorem serves_offerMain (label : Text) : Serves (offerMain label).goal
    (H.branch d pending failed (offerMain label).button.callbackData) := by
  have hbranch : H.branch d pending failed (lit "menu:main") =
      [.pending .pop, .edit (lit "选择一个操作：") (some mainMenu)] := rfl
  show Serves _ (H.branch d pending failed (lit "menu:main"))
  rw [hbranch]
  refine ⟨by simp, fun t kb hmem => ?_, List.mem_cons_of_mem _ (List.mem_singleton_self _)⟩
  simp only [List.mem_cons, reduceCtorEq, Call.edit.injEq, List.not_mem_nil, or_false,
    false_or] at hmem
  exact hmem.1 ▸ not_refusal rfl

theorem serves_exitAdd :
    Serves (.asks .addExitLink) (H.branch d pending failed (lit "exit_add")) := by
  refine serves_ask (not_refusal ?_)
  simp only [lit, String.reduceToList, List.cons_append, List.head?_cons, Option.any_some]
  decide

/-- The list of rules begins with its heading, or with a parenthesis. -/
theorem opShowRules_head (txt suffix : Text) :
    (opShowRules txt ++ suffix).head?.any (· ∈ lit "⏳🧭选🎯把发添（粘") = true := by
  unfold opShowRules
  dsimp only
  split <;> rfl

/-- The buttons under the rules, all but the presets. -/
theorem serves_rules {o : Offer} (ho : o ∈ rulesOffers H d) :
    Serves o.goal (H.branch d pending failed o.button.callbackData) ↔ Takes o.button.callbackData := by
  simp only [rulesOffers, rulesMenu, List.flatten_cons, List.flatten_nil, List.cons_append,
    List.nil_append, List.map_cons, List.map_nil, List.zipWith_cons_cons, List.zipWith_nil_left,
    List.mem_cons, List.not_mem_nil, or_false] at ho
  have hshow : opShowRules (readFile d.rules) ∉ refusals := by
    have hhead := opShowRules_head (readFile d.rules) []
    rw [List.append_nil] at hhead
    exact not_refusal hhead
  rcases ho with rfl | rfl | rfl | rfl | rfl | rfl | rfl | rfl | rfl | rfl | rfl
  · exact iff_of_true (serves_view hshow) (by decide : Takes (lit "rules:show"))
  · exact iff_of_true (serves_view (not_refusal rfl)) (by decide : Takes (lit "rules:quick_add"))
  · exact iff_of_true (serves_ask (not_refusal rfl)) (by decide : Takes (lit "rules:import_set"))
  · exact iff_of_false (fun hserves => hserves.runs (List.mem_singleton_self _))
      (by decide : ¬ Takes (lit "rules:presets"))
  · exact iff_of_true (serves_view hshow) (by decide : Takes (lit "rules:show"))
  · exact iff_of_true (serves_ask (not_refusal (opShowRules_head _ _)))
      (by decide : Takes (lit "rules:del"))
  · exact iff_of_true (serves_offerPolicy []) (by decide : Takes (lit "menu:policy"))
  · exact iff_of_true (serves_view (not_refusal rfl)) (by decide : Takes (lit "rules:set_final"))
  · exact iff_of_true (serves_launch (not_refusal rfl)) (by decide : Takes (lit "rules:refresh"))
  · exact iff_of_true (serves_launch (not_refusal rfl)) (by decide : Takes (lit "rules:enable"))
  · exact iff_of_true (serves_offerMain []) (by decide : Takes (lit "menu:main"))

/-- **`serves_iff`** — an offer is carried out if and only if it is one that the handlers take. -/
theorem serves_iff (hint : ∀ i < d.policyMap.length, H.pyInt (decimal i) = some (i : Int)) {o : Offer}
    (ho : Offered H d pending o) :
    Serves o.goal (H.branch d pending failed o.button.callbackData) ↔ Takes o.button.callbackData := by
  have hrules : Takes (lit "menu:rules") := by decide
  have hexits : Takes (lit "menu:exits") := by decide
  have hlt : ∀ {i : Nat} {entry : Text × Text}, d.policyMap[i]? = some entry →
      i < d.policyMap.length := fun hget => (List.getElem?_eq_some_iff.mp hget).1
  have hback : ∀ {l : List Offer} {x : Offer}, o ∈ l ++ [x] → o ∈ l ∨ o = x := by
    intro l x h
    exact (List.mem_append.mp h).imp_right List.mem_singleton.mp
  cases ho with
  | ruleTarget typ value htyp hvalue hpending ho =>
    rcases hback ho with ho | rfl
    · obtain ⟨e, he, hdata, hgoal⟩ := mem_targetOffers ho
      rw [hdata, hgoal, hpending]
      exact serves_rule htyp hvalue he
    · exact iff_of_true (serves_offerRules _) hrules
  | finalTarget ho =>
    rcases hback ho with ho | rfl
    · obtain ⟨e, he, hdata, hgoal⟩ := mem_targetOffers ho
      rw [hdata, hgoal]
      exact serves_final he
    · exact iff_of_true (serves_offerRules _) hrules
  | policy ho =>
    rcases hback ho with ho | rfl
    · rcases List.mem_append.mp ho with ho | ho
      · split at ho
        · rw [List.mem_singleton.mp ho]
          exact iff_of_true (serves_offerRules _) hrules
        · nomatch ho
      · obtain ⟨⟨⟨cat, tgt⟩, i⟩, hmem, rfl⟩ := List.mem_map.mp ho
        have hcat := List.mem_zipIdx_iff_getElem?.mp hmem
        exact iff_of_true (serves_category hcat (hint i (hlt hcat))) (takes_category i)
    · exact iff_of_true (serves_offerRules _) hrules
  | policyTargets idx cat tgt hcat ho =>
    rcases hback ho with ho | rfl
    · obtain ⟨e, he, hdata, hgoal⟩ := mem_targetOffers ho
      rw [hdata, hgoal]
      exact serves_policy hcat (hint idx (hlt hcat)) he
    · exact iff_of_true (serves_offerPolicy _) (by decide : Takes (lit "menu:policy"))
  | exits ho =>
    rcases List.mem_append.mp ho with ho | ho
    · obtain ⟨name, hname, rfl⟩ := List.mem_map.mp ho
      exact iff_of_true (serves_exit hname) takes_exit
    · simp only [List.mem_cons, List.not_mem_nil, or_false] at ho
      rcases ho with rfl | rfl | rfl | rfl
      · exact iff_of_true serves_exitAdd (by decide : Takes (lit "exit_add"))
      · exact iff_of_true (serves_view (not_refusal rfl)) (by decide : Takes (lit "menu:exits_del"))
      · exact iff_of_true (serves_launch (not_refusal rfl)) (by decide : Takes (lit "exits:check"))
      · exact iff_of_true (serves_offerMain _) (by decide : Takes (lit "menu:main"))
  | exitsDel ho =>
    rcases hback ho with ho | rfl
    · split at ho
      · rw [List.mem_singleton.mp ho]
        exact iff_of_true (serves_offerExits _) hexits
      · obtain ⟨name, hname, rfl⟩ := List.mem_map.mp ho
        exact serves_exitdel hname
    · exact iff_of_true (serves_offerExits _) hexits
  | rules ho => exact serves_rules ho

/-! ## A console with smart routing -/

/-- An exit, smart routing, and one category. -/
def smartConsole : Console where
  toWorld := { quietWorld with
    exitNames := [lit "local", lit "smart", lit "us"]
    policyMap := [(lit "Netflix", lit "us")] }
  currentExit := lit "smart"
  openPorts := []
  gfwlCount := 0
  gfwlRulesets := []
  isActive _ := lit "active"
  status := []
  dotStatus := []
  gfwlistShow := []
  portDescription _ := []

theorem pyInt_smartConsole :
    ∀ i < smartConsole.policyMap.length, plainBot.pyInt (decimal i) = some (i : Int) := by decide

/-- The category goes to the exit. -/
theorem serves_iff_netflix :
    Serves (.starts (.setPolicy (lit "Netflix") (lit "us")))
        (plainBot.branch smartConsole none none (policyData 0 (lit "us"))) ↔
      Takes (policyData 0 (lit "us")) :=
  serves_iff (o := ⟨⟨lit "us", policyData 0 (lit "us")⟩, .starts (.setPolicy (lit "Netflix") (lit "us"))⟩)
    pyInt_smartConsole (.policyTargets 0 (lit "Netflix") (lit "us") rfl (.tail _ (.head _)))

/-- `smart` is offered as the default, and refused. -/
theorem smart_offered_and_refused :
    ¬ ∀ (H : BotHost) (d : Console) (pending : Option Pending) (failed : Option Text),
      (∀ i < d.policyMap.length, H.pyInt (decimal i) = some (i : Int)) →
      ∀ o, Offered H d pending o →
        Serves o.goal (H.branch d pending failed o.button.callbackData) := by
  intro hclaim
  have hoffered : Offered plainBot smartConsole none
      ⟨⟨lit "➡ " ++ lit "smart", lit "fin:" ++ lit "smart"⟩, .starts (.setFinal (lit "smart"))⟩ :=
    .finalTarget (.head _)
  have hserves := hclaim plainBot smartConsole none none pyInt_smartConsole _ hoffered
  have htakes := (serves_final (.inl (.head _))).mp hserves
  exact takes_final.mp htakes rfl

end Serves

end ProxyGateway.Bot
