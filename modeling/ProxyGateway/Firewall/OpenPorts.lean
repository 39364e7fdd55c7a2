/-
# ProxyGateway.Firewall.OpenPorts — when the bot reports the open ports exactly

`_parse_nft_open_ports` should give one entry for each number that a destination-port match of an accept
rule names and that the rule matches.  It appends the ports of a rule in the loop over its expressions,
and the ports of the last such match once more behind that loop.  A rule without such a match is left
with the ports of the rule before it, and the first accept rule of a chain with none at all: that raises,
and the bot turns to the text listing, which shows no handles.

So the report is exact in odd cases only (`openPorts_exact_iff`): the last destination-port match of
every accept rule has to name no number.
-/
import ProxyGateway.Firewall.NftPorts

namespace ProxyGateway.Firewall

open ProxyGateway.Lang

/-! ## What is to be reported -/

/-- The single numbers on a right-hand side. -/
def Right.numbers : Right → List Nat
  | .num n => [n]
  | .set elems => elems.filterMap fun
      | .num n => some n
      | _ => none
  | _ => []

/-- The transport protocol of a match on a destination port. -/
def Match.l4 (m : Match) : L4 := if m.protocol = lit "tcp" then .tcp else .udp

/-- The ports that a match on a destination port names. -/
def Match.named (m : Match) : List Port := m.right.numbers.map fun n => ⟨m.l4, n⟩

/-- The destination-port matches among the expressions of a rule. -/
def dportMatches (expr : List Expr) : List Match :=
  expr.filterMap fun
    | .isMatch m => if m.onDport then some m else none
    | _ => none

def Rule.named (r : Rule) : List Port := (dportMatches r.expr).flatMap Match.named

/-- The last destination-port match names no number. -/
def Rule.EndsBlank (r : Rule) : Prop :=
  ∀ m, (dportMatches r.expr).getLast? = some m → m.right.numbers = []

/-- The entry stands for port `p` of the rule with this handle. -/
def Entry.isFor (handle : Nat) (p : Port) (e : Entry) : Bool :=
  e.handle = some handle && e.port = decimal p.number && e.proto = p.proto.text

section Report

variable (sets : Text → Nat → Bool)

/-- **`Rule.Lists`** — the accept rule names port `p` and matches it. -/
def Rule.Lists (r : Rule) (p : Port) : Prop := p ∈ r.named ∧ r.opens sets p

/-- **`ReportsExactly`** — one entry for each port that an accept rule lists, and no other entry. -/
structure ReportsExactly (rs : Ruleset) (entries : List Entry) : Prop where
  only : ∀ e ∈ entries, ∃ r ∈ rs.rules, ∃ p, r.Lists sets p ∧ e.isFor r.handle p = true
  once : ∀ r ∈ rs.rules, ∀ p, r.Lists sets p → entries.countP (Entry.isFor r.handle p) = 1

/-- **`Rule.Plain`** — an accept rule whose ports the bot reports once: its last destination-port match
names no number, and what the others name is named once and matched by the rule. -/
structure Rule.Plain (r : Rule) : Prop where
  last : r.EndsBlank
  nodup : r.named.Nodup
  opened : ∀ p ∈ r.named, r.opens sets p

end Report

/-- The first accept rule has a destination-port match. -/
def Ruleset.Binds (rs : Ruleset) : Prop :=
  ∃ r, rs.rules.find? Rule.hasAccept = some r ∧ dportMatches r.expr ≠ []

/-- The pass over the rules has something to report. -/
def Ruleset.Yields (rs : Ruleset) : Prop :=
  rs.Binds ∧ ∃ r ∈ rs.rules, r.hasAccept = true ∧ r.named ≠ []

/-- No line of the text listing shows an open port. -/
def ShowsNothing (stdout : Text) : Prop :=
  ∀ line ∈ splitlines stdout, ∀ proto ports, portLine line = some (proto, ports) → ports = []

/-! ## One rule -/

section OneRule

variable {h : Host} {r : Rule} {m : Match}

theorem L4.text_injective : Function.Injective L4.text := by
  intro a b hab
  cases a <;> cases b
  · rfl
  · exact absurd hab (by decide)
  · exact absurd hab (by decide)
  · rfl

/-- The ports that the parser reads are the numbers, in digits. -/
theorem matchPorts_eq (right : Right) : matchPorts right = right.numbers.map decimal := by
  cases right with
  | set elems =>
    simp only [matchPorts, Right.numbers, List.map_filterMap]
    refine List.filterMap_congr fun elem _ => ?_
    cases elem <;> rfl
  | _ => rfl

theorem protocol_of_onDport (hm : m.onDport = true) : m.protocol = m.l4.text := by
  simp only [Match.onDport, Bool.and_eq_true, Bool.or_eq_true, beq_iff_eq] at hm
  unfold Match.l4
  rcases hm.1 with hp | hp
  · rw [if_pos hp, hp]
    rfl
  · rw [hp]
    rfl

theorem mem_dportMatches {expr : List Expr} :
    m ∈ dportMatches expr ↔ .isMatch m ∈ expr ∧ m.onDport = true := by
  rw [dportMatches, List.mem_filterMap]
  constructor
  · rintro ⟨e, he, hm⟩
    cases e with
    | isMatch m' =>
      simp only [Option.ite_none_right_eq_some, Option.some.injEq] at hm
      obtain ⟨hon, rfl⟩ := hm
      exact ⟨he, hon⟩
    | _ => nomatch hm
  · rintro ⟨he, hon⟩
    exact ⟨_, he, by simp [hon]⟩

/-- The entry for a port of a rule. -/
def Host.portEntry (h : Host) (handle : Nat) (p : Port) : Entry :=
  h.entry (some handle) (decimal p.number) p.proto.text

theorem isFor_portEntry {handle handle' : Nat} {p q : Port} :
    (h.portEntry handle p).isFor handle' q = true ↔ handle = handle' ∧ p = q := by
  have hport : p = q ↔ p.number = q.number ∧ p.proto = q.proto := by
    rw [Port.mk.injEq, and_comm]
  simp only [Entry.isFor, Host.portEntry, Host.entry, Bool.and_eq_true, decide_eq_true_eq,
    Option.some.injEq, decimal_injective.eq_iff, L4.text_injective.eq_iff, hport, and_assoc]

/-- What the loop over the expressions appends for a match. -/
def Host.matchEntries (h : Host) (handle : Nat) (m : Match) : List Entry :=
  (matchPorts m.right).map (h.entry (some handle) · m.protocol)

theorem matchEntries_eq (handle : Nat) (hm : m.onDport = true) :
    h.matchEntries handle m = m.named.map (h.portEntry handle) := by
  rw [Host.matchEntries, matchPorts_eq, protocol_of_onDport hm, Match.named, List.map_map, List.map_map]
  rfl

/-- What it appends for a rule. -/
def Host.ruleEntries (h : Host) (r : Rule) : List Entry :=
  (dportMatches r.expr).flatMap (h.matchEntries r.handle)

theorem ruleEntries_eq : h.ruleEntries r = r.named.map (h.portEntry r.handle) := by
  rw [Host.ruleEntries, Rule.named, List.map_flatMap]
  refine List.flatMap_congr fun m hm => ?_
  exact matchEntries_eq r.handle (mem_dportMatches.mp hm).2

/-- The ports that are left behind a rule. -/
def Rule.leaves (r : Rule) (ports : Option (List Text)) : Option (List Text) :=
  ((dportMatches r.expr).getLast?.map fun m => matchPorts m.right).or ports

theorem parseExprs_eq (h : Host) (handle : Nat) (expr : List Expr) (locals : Locals)
    (openPorts : List Entry) : ∃ proto,
      parseExprs h handle expr locals openPorts =
        (⟨((dportMatches expr).getLast?.map fun m => matchPorts m.right).or locals.ports, proto⟩,
          openPorts ++ (dportMatches expr).flatMap (h.matchEntries handle)) := by
  induction expr generalizing locals openPorts with
  | nil => exact ⟨locals.proto, by simp [parseExprs, dportMatches]⟩
  | cons e expr ih =>
    cases e with
    | accept => exact ih locals openPorts
    | other => exact ih locals openPorts
    | isMatch m =>
      by_cases hm : m.onDport = true
      · have hcons : dportMatches (.isMatch m :: expr) = m :: dportMatches expr := by
          simp [dportMatches, hm]
        obtain ⟨proto, hrest⟩ := ih ⟨some (matchPorts m.right), m.protocol⟩
          (openPorts ++ h.matchEntries handle m)
        refine ⟨proto, ?_⟩
        simp only [Match.onDport, Bool.and_eq_true, Bool.or_eq_true, beq_iff_eq] at hm
        have hproto : ¬ (m.protocol ≠ lit "tcp" ∧ m.protocol ≠ lit "udp") := by tauto
        rw [parseExprs, if_neg hproto, if_neg (not_not.mpr hm.2)]
        refine hrest.trans ?_
        rw [hcons, List.getLast?_cons, List.flatMap_cons, List.append_assoc]
        cases (dportMatches expr).getLast? <;> rfl
      · have hcons : dportMatches (.isMatch m :: expr) = dportMatches expr := by
          simp [dportMatches, hm]
        obtain ⟨proto, hrest⟩ := ih { locals with proto := m.protocol } openPorts
        refine ⟨proto, ?_⟩
        rw [hcons, ← hrest, parseExprs]
        simp only [Match.onDport, Bool.and_eq_true, Bool.or_eq_true, beq_iff_eq] at hm
        split
        · rfl
        · rw [if_pos]
          tauto

end OneRule

/-! ## All rules -/

section AllRules

variable (h : Host) {locals : Locals} (openPorts : List Entry)

theorem parseRules_accept (locals : Locals) {r : Rule} (hr : r.hasAccept = true)
    (rules : List Rule) : ∃ proto,
    parseRules h (r :: rules) locals openPorts =
      match r.leaves locals.ports with
      | none => openPorts ++ h.ruleEntries r
      | some ports => parseRules h rules ⟨some ports, proto⟩
          (openPorts ++ h.ruleEntries r ++ ports.map (h.entry (some r.handle) · proto)) := by
  obtain ⟨proto, hexprs⟩ := parseExprs_eq h r.handle r.expr locals openPorts
  refine ⟨proto, ?_⟩
  rw [parseRules, if_pos hr, hexprs, Rule.leaves]
  cases ((dportMatches r.expr).getLast?.map fun m => matchPorts m.right).or locals.ports <;> rfl

theorem parseRules_leaves {r : Rule} {ports : List Text} (hr : r.hasAccept = true)
    (hleaves : r.leaves locals.ports = some ports) (rules : List Rule) : ∃ proto,
    parseRules h (r :: rules) locals openPorts =
      parseRules h rules ⟨some ports, proto⟩
        (openPorts ++ h.ruleEntries r ++ ports.map (h.entry (some r.handle) · proto)) := by
  obtain ⟨proto, heq⟩ := parseRules_accept h openPorts locals hr rules
  rw [hleaves] at heq
  exact ⟨proto, heq⟩

theorem parseRules_skip {r : Rule} (hr : r.hasAccept = false) (rules : List Rule) :
    parseRules h (r :: rules) locals openPorts = parseRules h rules locals openPorts := by
  rw [parseRules, if_neg (by rw [hr]; exact Bool.false_ne_true)]

/-- Entries stay. -/
theorem prefix_parseRules (h : Host) (rules : List Rule) (locals : Locals) (openPorts : List Entry) :
    openPorts <+: parseRules h rules locals openPorts := by
  induction rules generalizing locals openPorts with
  | nil => exact List.prefix_rfl
  | cons r rules ih =>
    cases hr : r.hasAccept with
    | false =>
      rw [parseRules_skip h openPorts hr]
      exact ih locals openPorts
    | true =>
      obtain ⟨proto, heq⟩ := parseRules_accept h openPorts locals hr rules
      rw [heq]
      split
      · exact List.prefix_append _ _
      · exact ((List.prefix_append _ _).trans (List.prefix_append _ _)).trans (ih _ _)

/-- Nothing is carried into the first accept rule, or it brings a match of its own. -/
def Ready (rules : List Rule) (ports : Option (List Text)) : Prop :=
  ports = some [] ∨
    ports = none ∧ ∃ r, rules.find? Rule.hasAccept = some r ∧ dportMatches r.expr ≠ []

theorem Ready.skip {r : Rule} {rules : List Rule} {ports : Option (List Text)}
    (hready : Ready (r :: rules) ports) (hr : r.hasAccept = false) : Ready rules ports := by
  rcases hready with hports | ⟨hports, q, hfind, hne⟩
  · exact .inl hports
  · rw [List.find?_cons_of_neg (by rw [hr]; exact Bool.false_ne_true)] at hfind
    exact .inr ⟨hports, q, hfind, hne⟩

/-- What a rule leaves is what its last match names. -/
theorem Ready.leaves {r : Rule} {rules : List Rule} {ports : Option (List Text)}
    (hready : Ready (r :: rules) ports) (hr : r.hasAccept = true) :
    r.leaves ports = some [] ∧ r.EndsBlank ∨
      ∃ m, (dportMatches r.expr).getLast? = some m ∧ m.right.numbers ≠ [] ∧
        r.leaves ports = some (matchPorts m.right) := by
  unfold Rule.leaves Rule.EndsBlank
  cases hlast : (dportMatches r.expr).getLast? with
  | none =>
    left
    have hnil := List.getLast?_eq_none_iff.mp hlast
    rcases hready with rfl | ⟨-, q, hfind, hne⟩
    · exact ⟨rfl, nofun⟩
    · rw [List.find?_cons_of_pos hr] at hfind
      obtain rfl := Option.some.inj hfind
      exact absurd hnil hne
  | some m =>
    by_cases hm : m.right.numbers = []
    · left
      refine ⟨by simp [matchPorts_eq, hm], fun m' hm' => ?_⟩
      obtain rfl := Option.some.inj hm'
      exact hm
    · exact .inr ⟨m, rfl, hm, rfl⟩

/-- Where no rule leaves a port behind, each rule is reported once. -/
theorem parseRules_blank {rules : List Rule} (hready : Ready rules locals.ports)
    (hblank : ∀ r ∈ rules, r.hasAccept = true → r.EndsBlank) :
    parseRules h rules locals openPorts =
      openPorts ++ (rules.filter Rule.hasAccept).flatMap h.ruleEntries := by
  induction rules generalizing locals openPorts with
  | nil => simp [parseRules]
  | cons r rules ih =>
    have hrest : ∀ q ∈ rules, q.hasAccept = true → q.EndsBlank := fun q hq =>
      hblank q (List.mem_cons_of_mem _ hq)
    cases hr : r.hasAccept with
    | false =>
      rw [parseRules_skip h openPorts hr, ih openPorts (hready.skip hr) hrest,
        List.filter_cons_of_neg (by rw [hr]; exact Bool.false_ne_true)]
    | true =>
      rcases hready.leaves hr with ⟨hleaves, -⟩ | ⟨m, hlast, hm, -⟩
      · -- the ports that the next rule inherits are none
        obtain ⟨proto, heq⟩ := parseRules_leaves h openPorts hr hleaves rules
        have hnext : Ready rules (Locals.mk (some []) proto).ports := .inl rfl
        rw [heq, List.map_nil, List.append_nil, ih _ hnext hrest, List.filter_cons_of_pos hr,
          List.flatMap_cons, List.append_assoc]
      · exact absurd (hblank r (List.mem_cons_self ..) hr m hlast) hm

/-- Where a rule leaves a port behind, that port of the rule is reported twice. -/
theorem parseRules_twice {rules : List Rule} (hready : Ready rules locals.ports) {r : Rule}
    (hmem : r ∈ rules) (hr : r.hasAccept = true) (hleft : ¬ r.EndsBlank) :
    ∃ q ∈ rules, ∃ m ∈ dportMatches q.expr, ∃ n ∈ m.right.numbers, ∃ proto,
      [h.entry (some q.handle) (decimal n) m.protocol, h.entry (some q.handle) (decimal n) proto].Sublist
        (parseRules h rules locals openPorts) := by
  induction rules generalizing locals openPorts with
  | nil => nomatch hmem
  | cons q rules ih =>
    cases hq : q.hasAccept with
    | false =>
      have hin : r ∈ rules := by
        rcases List.mem_cons.mp hmem with rfl | hin
        · rw [hr] at hq
          nomatch hq
        · exact hin
      obtain ⟨q', hq', hfound⟩ := ih openPorts (hready.skip hq) hin
      rw [parseRules_skip h openPorts hq]
      exact ⟨q', List.mem_cons_of_mem _ hq', hfound⟩
    | true =>
      rcases hready.leaves hq with ⟨hleaves, hqblank⟩ | ⟨m, hlast, hm, hleaves⟩
      · have hin : r ∈ rules := by
          rcases List.mem_cons.mp hmem with rfl | hin
          · exact absurd hqblank hleft
          · exact hin
        obtain ⟨proto, heq⟩ := parseRules_leaves h openPorts hq hleaves rules
        have hnext : Ready rules (Locals.mk (some []) proto).ports := .inl rfl
        obtain ⟨q', hq', hfound⟩ := ih (openPorts ++ h.ruleEntries q ++
          [].map (h.entry (some q.handle) · proto)) hnext hin
        rw [heq]
        exact ⟨q', List.mem_cons_of_mem _ hq', hfound⟩
      · -- once in the loop over the expressions, once behind it
        obtain ⟨proto, heq⟩ := parseRules_leaves h openPorts hq hleaves rules
        obtain ⟨n, ns, hn⟩ := List.exists_cons_of_ne_nil hm
        have hmem : m ∈ dportMatches q.expr := List.mem_of_getLast? hlast
        have hport : decimal n ∈ matchPorts m.right := by
          rw [matchPorts_eq, hn]
          exact List.mem_cons_self ..
        have hinside : h.entry (some q.handle) (decimal n) m.protocol ∈ h.ruleEntries q :=
          List.mem_flatMap.mpr ⟨m, hmem, List.mem_map.mpr ⟨_, hport, rfl⟩⟩
        have hbehind : h.entry (some q.handle) (decimal n) proto ∈
          (matchPorts m.right).map (h.entry (some q.handle) · proto) :=
          List.mem_map.mpr ⟨_, hport, rfl⟩
        refine ⟨q, List.mem_cons_self .., m, hmem, n, hn ▸ List.mem_cons_self .., proto, ?_⟩
        rw [heq]
        refine List.Sublist.trans ?_ (prefix_parseRules h rules _ _).sublist
        rw [List.append_assoc]
        exact (List.Sublist.append (List.singleton_sublist.mpr hinside)
          (List.singleton_sublist.mpr hbehind)).trans (List.sublist_append_right _ _)

end AllRules

/-! ## The whole report -/

section Whole

variable {sets : Text → Nat → Bool} {h : Host} {rs : Ruleset} {stdout : Text}

/-- Ports of two rules, or two ports of a rule, are told apart by their entries. -/
theorem Ruleset.eq_of_handle {q r : Rule} (hq : q ∈ rs.rules) (hr : r ∈ rs.rules)
    (hhandle : q.handle = r.handle) : q = r :=
  List.inj_on_of_nodup_map rs.handle_nodup hq hr hhandle

/-- The ports that the accept rules name, each with the handle of its rule. -/
def Ruleset.namedPorts (rs : Ruleset) : List (Nat × Port) :=
  (rs.rules.filter Rule.hasAccept).flatMap fun r => r.named.map fun p => (r.handle, p)

theorem mem_namedPorts {handle : Nat} {p : Port} : (handle, p) ∈ rs.namedPorts ↔
    ∃ r ∈ rs.rules, r.hasAccept = true ∧ r.handle = handle ∧ p ∈ r.named := by
  simp only [Ruleset.namedPorts, List.mem_flatMap, List.mem_filter, List.mem_map, Prod.mk.injEq]
  constructor
  · rintro ⟨r, ⟨hr, haccept⟩, p, hp, rfl, rfl⟩
    exact ⟨r, hr, haccept, rfl, hp⟩
  · rintro ⟨r, hr, haccept, rfl, hp⟩
    exact ⟨r, ⟨hr, haccept⟩, p, hp, rfl, rfl⟩

theorem ruleEntries_namedPorts :
    (rs.rules.filter Rule.hasAccept).flatMap h.ruleEntries =
      rs.namedPorts.map fun hp => h.portEntry hp.1 hp.2 := by
  rw [Ruleset.namedPorts, List.map_flatMap]
  refine List.flatMap_congr fun r _ => ?_
  rw [ruleEntries_eq, List.map_map]
  rfl

/-- How often a port is in the report. -/
theorem countP_portEntry (named : List (Nat × Port)) (handle : Nat) (p : Port) :
    (named.map fun hp => h.portEntry hp.1 hp.2).countP (Entry.isFor handle p) =
      named.count (handle, p) := by
  rw [List.countP_map, List.count]
  refine List.countP_congr fun hp _ => ?_
  rw [Function.comp_apply, isFor_portEntry, beq_iff_eq, Prod.mk.injEq]

theorem nodup_namedPorts (h : ∀ r ∈ rs.rules, r.hasAccept = true → r.named.Nodup) :
    rs.namedPorts.Nodup := by
  rw [Ruleset.namedPorts, List.nodup_flatMap]
  constructor
  · intro r hr
    obtain ⟨hmem, haccept⟩ := List.mem_filter.mp hr
    exact (h r hmem haccept).map fun p q hpq => (Prod.mk.inj hpq).2
  · have hpairs : (rs.rules.filter Rule.hasAccept).Pairwise fun q r => q.handle ≠ r.handle :=
      (List.pairwise_map.mp rs.handle_nodup).filter _
    refine hpairs.imp fun {q r} hne => ?_
    rintro ⟨handle, p⟩ hq hr
    obtain ⟨_, -, hq⟩ := List.mem_map.mp hq
    obtain ⟨_, -, hr⟩ := List.mem_map.mp hr
    exact hne ((Prod.mk.inj hq).1.trans (Prod.mk.inj hr).1.symm)

/-- A report of what the rules name is exact if the rules name each port once and match it. -/
theorem reports_named_iff :
    ReportsExactly sets rs (rs.namedPorts.map fun hp => h.portEntry hp.1 hp.2) ↔
      ∀ r ∈ rs.rules, r.hasAccept = true → r.named.Nodup ∧ ∀ p ∈ r.named, r.opens sets p := by
  constructor
  · intro hexact r hr haccept
    have hopens : ∀ p ∈ r.named, r.opens sets p := by
      intro p hp
      have hentry : h.portEntry r.handle p ∈
          rs.namedPorts.map fun hp => h.portEntry hp.1 hp.2 :=
        List.mem_map.mpr ⟨(r.handle, p), mem_namedPorts.mpr ⟨r, hr, haccept, rfl, hp⟩, rfl⟩
      obtain ⟨q, hq, p', hlists, hfor⟩ := hexact.only _ hentry
      obtain ⟨hhandle, rfl⟩ := isFor_portEntry.mp hfor
      obtain rfl := rs.eq_of_handle hr hq hhandle
      exact hlists.2
    refine ⟨List.nodup_iff_count_le_one.mpr fun p => ?_, hopens⟩
    by_cases hp : p ∈ r.named
    · -- a port named twice by its rule is in the report twice
      have honce := hexact.once r hr p ⟨hp, hopens p hp⟩
      rw [countP_portEntry] at honce
      have hsub : (r.named.map fun p => (r.handle, p)).Sublist rs.namedPorts :=
        List.sublist_flatten_of_mem
          (List.mem_map.mpr ⟨r, List.mem_filter.mpr ⟨hr, haccept⟩, rfl⟩)
      have hle := hsub.count_le (r.handle, p)
      have hcount := List.count_le_count_map (f := fun p => (r.handle, p)) (l := r.named) (x := p)
      omega
    · rw [List.count_eq_zero_of_not_mem hp]
      exact Nat.zero_le 1
  · intro hplain
    constructor
    · intro e he
      obtain ⟨⟨handle, p⟩, hmem, rfl⟩ := List.mem_map.mp he
      obtain ⟨r, hr, haccept, rfl, hp⟩ := mem_namedPorts.mp hmem
      exact ⟨r, hr, p, ⟨hp, (hplain r hr haccept).2 p hp⟩, isFor_portEntry.mpr ⟨rfl, rfl⟩⟩
    · intro r hr p hlists
      rw [countP_portEntry]
      refine List.count_eq_one_of_mem (nodup_namedPorts fun q hq hacc => (hplain q hq hacc).1) ?_
      exact mem_namedPorts.mpr ⟨r, hr, hlists.2.1, rfl, hlists.1⟩

/-- No report is exact that has a port of a rule twice, under whatever protocols. -/
theorem not_reports_of_twice {entries : List Entry} {q : Rule} (hq : q ∈ rs.rules) {m : Match}
    (hm : m ∈ dportMatches q.expr) {n : Nat} {proto : Text}
    (htwice : [h.entry (some q.handle) (decimal n) m.protocol,
      h.entry (some q.handle) (decimal n) proto].Sublist entries) :
    ¬ ReportsExactly sets rs entries := by
  intro hexact
  have hlisted : ∀ proto, h.entry (some q.handle) (decimal n) proto ∈ entries →
      ∃ p, q.Lists sets p ∧ p.number = n ∧ proto = p.proto.text := by
    intro proto hmem
    obtain ⟨r, hr, p, hlists, hfor⟩ := hexact.only _ hmem
    simp only [Entry.isFor, Host.entry, Bool.and_eq_true, decide_eq_true_eq, Option.some.injEq,
      decimal_injective.eq_iff] at hfor
    obtain ⟨⟨hhandle, hn⟩, hproto⟩ := hfor
    obtain rfl := rs.eq_of_handle hq hr hhandle
    exact ⟨p, hlists, hn.symm, of_decide_eq_true hproto⟩
  obtain ⟨p, hp, hpn, hproto⟩ := hlisted _ (htwice.subset (List.mem_cons_self ..))
  obtain ⟨p', hp', hpn', hproto'⟩ :=
    hlisted _ (htwice.subset (List.mem_cons_of_mem _ (List.mem_cons_self ..)))
  -- the rule matches both, so both are of the protocol of its match
  obtain ⟨hin, hon⟩ := mem_dportMatches.mp hm
  have hsame : p.proto.text = p'.proto.text :=
    ((hp.2.2.2 m hin hon).1).symm.trans (hp'.2.2.2 m hin hon).1
  have hle := htwice.countP_le (p := Entry.isFor q.handle p)
  rw [hexact.once q hq p hp] at hle
  have htwo : [h.entry (some q.handle) (decimal n) m.protocol,
      h.entry (some q.handle) (decimal n) proto].countP (Entry.isFor q.handle p) = 2 := by
    simp [Entry.isFor, Host.entry, hpn, hproto, hproto', hsame]
  omega

/-- The first accept rule raises, or there is none. -/
theorem parseRules_unbound {rules : List Rule} {locals : Locals} {openPorts : List Entry}
    (hports : locals.ports = none)
    (hnot : ¬ ∃ r, rules.find? Rule.hasAccept = some r ∧ dportMatches r.expr ≠ []) :
    parseRules h rules locals openPorts = openPorts := by
  induction rules with
  | nil => rfl
  | cons r rules ih =>
    cases hr : r.hasAccept with
    | false =>
      rw [parseRules_skip h openPorts hr]
      refine ih fun ⟨q, hfind, hne⟩ => hnot ⟨q, ?_, hne⟩
      rw [List.find?_cons_of_neg (by rw [hr]; exact Bool.false_ne_true), hfind]
    | true =>
      have hnil : dportMatches r.expr = [] := by
        by_contra hne
        exact hnot ⟨r, List.find?_cons_of_pos hr, hne⟩
      obtain ⟨proto, heq⟩ := parseRules_accept h openPorts locals hr rules
      have hleaves : r.leaves locals.ports = none := by
        rw [Rule.leaves, hnil, hports]
        rfl
      rw [hleaves] at heq
      rw [heq, Host.ruleEntries, hnil]
      exact List.append_nil _

theorem parseText_eq_nil_iff : parseText h stdout = [] ↔ ShowsNothing stdout := by
  rw [parseText, List.flatMap_eq_nil_iff]
  refine forall₂_congr fun line _ => ?_
  cases portLine line with
  | none => simp
  | some found =>
    obtain ⟨proto, ports⟩ := found
    simp only [List.map_eq_nil_iff, Option.some.injEq, Prod.mk.injEq, and_imp]
    exact ⟨fun hnil _ _ _ hports => hports ▸ hnil, fun hall => hall _ _ rfl rfl⟩

/-- Where the pass over the rules has nothing to report, the bot reads the text listing. -/
theorem parseNftOpenPorts_text (h : Host) (stdout : Text) (hyields : ¬ rs.Yields) :
    parseNftOpenPorts h rs stdout = parseText h stdout := by
  have hrules : parseRules h rs.rules ⟨none, []⟩ [] = [] := by
    by_cases hbinds : rs.Binds
    · have hnone : ∀ r ∈ rs.rules, r.hasAccept = true → r.named = [] := by
        intro r hr haccept
        by_contra hne
        exact hyields ⟨hbinds, r, hr, haccept, hne⟩
      have hblank : ∀ r ∈ rs.rules, r.hasAccept = true → r.EndsBlank := by
        intro r hr haccept m hm
        have hnamed := List.flatMap_eq_nil_iff.mp (hnone r hr haccept) m (List.mem_of_getLast? hm)
        exact List.map_eq_nil_iff.mp hnamed
      rw [parseRules_blank h [] (.inr ⟨rfl, hbinds⟩) hblank, List.nil_append, List.flatMap_eq_nil_iff]
      intro r hr
      obtain ⟨hmem, haccept⟩ := List.mem_filter.mp hr
      rw [ruleEntries_eq, hnone r hmem haccept]
      rfl
    · exact parseRules_unbound rfl hbinds
  rw [parseNftOpenPorts, hrules]

theorem parseNftOpenPorts_rules (h : Host) (stdout : Text)
    (hne : parseRules h rs.rules ⟨none, []⟩ [] ≠ []) :
    parseNftOpenPorts h rs stdout = parseRules h rs.rules ⟨none, []⟩ [] := by
  obtain ⟨e, es, heq⟩ := List.exists_cons_of_ne_nil hne
  rw [parseNftOpenPorts, heq]

/-- **`openPorts_exact_iff`** — the report is exact if and only if every accept rule is plain, or, where
the pass over the rules has nothing to report, no rule lists a port and the text listing shows none.
`nft list chain` shows no handles. -/
theorem openPorts_exact_iff (sets : Text → Nat → Bool) (h : Host) (rs : Ruleset) (stdout : Text)
    (hplain : ∀ line ∈ splitlines stdout, handleOf line = none) :
    ReportsExactly sets rs (parseNftOpenPorts h rs stdout) ↔
      (rs.Yields → ∀ r ∈ rs.rules, r.hasAccept = true → r.Plain sets) ∧
        (¬ rs.Yields → (∀ r ∈ rs.rules, ∀ p, ¬ r.Lists sets p) ∧ ShowsNothing stdout) := by
  -- the text listing is read only where the pass over the rules has nothing to report
  by_cases hyields : rs.Yields
  · simp only [hyields, true_implies, not_true_eq_false, false_implies, and_true]
    obtain ⟨hbinds, r₀, hr₀, haccept₀, hnamed₀⟩ := hyields
    have hready : Ready rs.rules (Locals.mk none []).ports := .inr ⟨rfl, hbinds⟩
    by_cases hblank : ∀ r ∈ rs.rules, r.hasAccept = true → r.EndsBlank
    · have hrules : parseRules h rs.rules ⟨none, []⟩ [] =
          rs.namedPorts.map fun hp => h.portEntry hp.1 hp.2 := by
        rw [parseRules_blank h [] hready hblank, List.nil_append, ruleEntries_namedPorts]
      have hne : parseRules h rs.rules ⟨none, []⟩ [] ≠ [] := by
        obtain ⟨p, ps, hp⟩ := List.exists_cons_of_ne_nil hnamed₀
        have hmem : (r₀.handle, p) ∈ rs.namedPorts :=
          mem_namedPorts.mpr ⟨r₀, hr₀, haccept₀, rfl, hp ▸ List.mem_cons_self ..⟩
        rw [hrules, Ne, List.map_eq_nil_iff]
        exact List.ne_nil_of_mem hmem
      rw [parseNftOpenPorts_rules h stdout hne, hrules, reports_named_iff]
      refine forall₂_congr fun r hr => imp_congr_right fun haccept => ?_
      exact ⟨fun hr' => ⟨hblank r hr haccept, hr'.1, hr'.2⟩, fun hr' => ⟨hr'.nodup, hr'.opened⟩⟩
    · push Not at hblank
      obtain ⟨r, hr, haccept, hleft⟩ := hblank
      obtain ⟨q, hq, m, hm, n, -, proto, htwice⟩ :=
        parseRules_twice h [] hready hr haccept hleft
      rw [parseNftOpenPorts_rules h stdout (List.ne_nil_of_mem (htwice.subset (List.mem_cons_self ..)))]
      exact iff_of_false (not_reports_of_twice hq hm htwice) fun hall => hleft (hall r hr haccept).last
  · simp only [hyields, false_implies, not_false_eq_true, true_implies, true_and]
    rw [parseNftOpenPorts_text h stdout hyields, ← parseText_eq_nil_iff (h := h)]
    constructor
    · intro hexact
      have hnil : parseText h stdout = [] := by
        rw [List.eq_nil_iff_forall_not_mem]
        intro e he
        -- an entry without a handle is of no rule
        obtain ⟨r, -, p, -, hfor⟩ := hexact.only e he
        obtain ⟨line, hline, he⟩ := List.mem_flatMap.mp he
        split at he
        · obtain ⟨port, -, rfl⟩ := List.mem_map.mp he
          simp [Entry.isFor, Host.entry, hplain line hline] at hfor
        · nomatch he
      refine ⟨fun r hr p hlists => ?_, hnil⟩
      have honce := hexact.once r hr p hlists
      rw [hnil] at honce
      nomatch honce
    · rintro ⟨hnone, hnil⟩
      rw [hnil]
      exact ⟨nofun, fun r hr p hlists => absurd hlists (hnone r hr p)⟩

theorem openPorts_exact_sshAndPanel :
    ReportsExactly noSets sshAndPanel (parseNftOpenPorts quietHost sshAndPanel []) ↔
      (sshAndPanel.Yields → ∀ r ∈ sshAndPanel.rules, r.hasAccept = true → r.Plain noSets) ∧
        (¬ sshAndPanel.Yields →
          (∀ r ∈ sshAndPanel.rules, ∀ p, ¬ r.Lists noSets p) ∧ ShowsNothing []) :=
  openPorts_exact_iff noSets quietHost sshAndPanel [] (by decide)

/-- Two rules of one port each make four entries. -/
theorem ports_reported_twice :
    ¬ ∀ (sets : Text → Nat → Bool) (h : Host) (rs : Ruleset) (stdout : Text),
      (∀ line ∈ splitlines stdout, handleOf line = none) →
      ReportsExactly sets rs (parseNftOpenPorts h rs stdout) := by
  intro hclaim
  have hexact := hclaim noSets quietHost sshAndPanel [] (by decide)
  have hlists : (dportRule 4 .tcp (.num 22)).Lists noSets ⟨.tcp, 22⟩ :=
    ⟨by decide, (dportRule_opens_iff _ _ _ _ _).mpr ⟨rfl, by decide⟩⟩
  have honce := hexact.once (dportRule 4 .tcp (.num 22)) (List.mem_cons_self ..) _ hlists
  exact absurd honce (by decide)

end Whole

end ProxyGateway.Firewall
