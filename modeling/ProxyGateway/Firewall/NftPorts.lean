/-
# ProxyGateway.Firewall.NftPorts — the bot's view of the open ports, and closing one

The bot shows ports, nftables stores rules.  `_parse_nft_open_ports` turns the `input` chain into a
list of entries, one per port of an accept rule, each with the handle of its rule;
`op_firewall_del_port_key` looks a port up in that list and deletes the RULE of the first entry it
finds.

The parser is modelled with its local variables: `ports` and `proto` survive from one rule to the
next, and reading `ports` before its first assignment raises, which sends the bot to the text
listing.  `Rule.opens` is the meaning of a rule, stated independently.  A successful deletion closes
exactly the port asked for when, and only when, the rule found for it is the port's only rule and
opens nothing that no other rule opens (`closesExactly_iff`): a rule with a port set, or two rules
for one port, break it.
-/
import ProxyGateway.Lang.Text
import Mathlib.Data.List.Nodup

namespace ProxyGateway.Firewall

open ProxyGateway.Lang

/-! ## Rules, as `nft -j list ruleset` prints them -/

inductive Op where
  | eq | ne | lt | gt | le | ge
  deriving DecidableEq, Repr

/-- A member of an anonymous set. -/
inductive Elem where
  | num (n : Nat)
  | range (lo hi : Nat)
  | other
  deriving DecidableEq, Repr

/-- The right-hand side of a match. -/
inductive Right where
  | num (n : Nat)
  | set (elems : List Elem)
  | range (lo hi : Nat)
  | named (name : Text)
  | other
  deriving DecidableEq, Repr

/-- A match statement.  A left-hand side that is not a payload expression has neither field, which
the source reads as two empty strings. -/
structure Match where
  op : Op
  protocol : Text
  field : Text
  right : Right
  deriving DecidableEq, Repr

inductive Expr where
  | isMatch (m : Match)
  | accept
  | other
  deriving DecidableEq, Repr

structure Rule where
  family : Text
  table : Text
  chain : Text
  handle : Nat
  expr : List Expr
  deriving DecidableEq, Repr

/-- An element of the `nftables` array. -/
inductive NftObject where
  | rule (r : Rule)
  | other
  deriving DecidableEq, Repr

def Rule.inInput (r : Rule) : Bool :=
  r.family == lit "inet" && r.table == lit "filter" && r.chain == lit "input"

/-- The rules of `inet filter input`, in order. -/
def inputRules (objs : List NftObject) : List Rule :=
  objs.filterMap fun
    | .rule r => if r.inInput then some r else none
    | .other => none

/-- **`Ruleset`** — a listed ruleset.  The kernel gives the rules of a table distinct handles, from
1 on. -/
structure Ruleset where
  objects : List NftObject
  handle_pos : ∀ r ∈ inputRules objects, 0 < r.handle
  handle_nodup : ((inputRules objects).map Rule.handle).Nodup

def Ruleset.rules (rs : Ruleset) : List Rule := inputRules rs.objects

/-! ## Parsing -/

/-- What the bot looks up besides the ruleset: the listening processes and the port descriptions. -/
structure Host where
  listening : Text → Text
  portDescription : Text → Text

structure Entry where
  handle : Option Nat
  port : Text
  proto : Text
  key : Text
  proc : Text
  desc : Text
  chain : Text
  deriving DecidableEq, Repr

/-- `"%s/%s" % (port, proto)`. -/
def portKey (port proto : Text) : Text := port ++ '/' :: proto

/-- The dictionary appended for one port. -/
def Host.entry (h : Host) (handle : Option Nat) (port proto : Text) : Entry :=
  let key := portKey port proto
  let proc := h.listening key
  let desc := h.portDescription key
  { handle, port, proto, key, proc
    desc := if desc = [] ∧ proc ≠ [] then proc else desc
    chain := lit "input" }

/-- The ports the parser reads off a right-hand side: numbers only, the operator is not looked at. -/
def matchPorts : Right → List Text
  | .num n => [decimal n]
  | .set elems => elems.filterMap fun
      | .num n => some (decimal n)
      | _ => none
  | _ => []

/-- The local variables that outlive a turn of the rule loop.  `ports` is unbound at first. -/
structure Locals where
  ports : Option (List Text)
  proto : Text
  deriving DecidableEq, Repr

/-- `for e in expr`. -/
def parseExprs (h : Host) (handle : Nat) : List Expr → Locals → List Entry → Locals × List Entry
  | [], locals, openPorts => (locals, openPorts)
  | .isMatch m :: expr, locals, openPorts =>
    let proto := m.protocol
    if proto ≠ lit "tcp" ∧ proto ≠ lit "udp" then
      parseExprs h handle expr { locals with proto } openPorts
    else if m.field ≠ lit "dport" then
      parseExprs h handle expr { locals with proto } openPorts
    else
      let ports := matchPorts m.right
      parseExprs h handle expr ⟨some ports, proto⟩
        (openPorts ++ ports.map (h.entry (some handle) · proto))
  | _ :: expr, locals, openPorts => parseExprs h handle expr locals openPorts

def Rule.hasAccept (r : Rule) : Bool := r.expr.contains .accept

/-- `for rule in rules`.  The entries of a rule are appended once in the loop over its expressions
and once after it, from whatever `ports` and `proto` hold by then; when `ports` is still unbound the
exception ends the whole `try` block. -/
def parseRules (h : Host) : List Rule → Locals → List Entry → List Entry
  | [], _, openPorts => openPorts
  | r :: rules, locals, openPorts =>
    if r.hasAccept then
      match parseExprs h r.handle r.expr locals openPorts with
      | (⟨none, _⟩, openPorts) => openPorts
      | (⟨some ports, proto⟩, openPorts) =>
        parseRules h rules ⟨some ports, proto⟩
          (openPorts ++ ports.map (h.entry (some r.handle) · proto))
    else parseRules h rules locals openPorts

/-! ## The text listing -/

/-- `\s+` -/
def blanks : Text → Option Text
  | c :: t => if isSpace c then some (t.dropWhile isSpace) else none
  | [] => none

/-- A literal piece of a pattern. -/
def literal (w t : Text) : Option Text := if w.isPrefixOf t then some (t.drop w.length) else none

/-- `[0-9,\s]` -/
def isPortsChar (c : Char) : Bool := c.isDigit || c == ',' || isSpace c

/-- `re.findall(r'\d+', t)` on ASCII text. -/
def digitRuns (t : Text) : List Text := (t.splitOnP fun c => !c.isDigit).filter (· ≠ [])

/-- The protocol and the ports of a line that matches
`\s*(tcp|udp)\s+dport\s+(?:{\s*)?([0-9,\s]+)(?:\s*})?\s+accept`.  The run of ports takes the blanks
behind it; it has to end in one unless a brace follows. -/
def portLine (line : Text) : Option (Text × List Text) := do
  let t := line.dropWhile isSpace
  let proto ← if (lit "tcp").isPrefixOf t then some (lit "tcp")
    else if (lit "udp").isPrefixOf t then some (lit "udp") else none
  let t ← blanks (t.drop 3)
  let t ← literal (lit "dport") t
  let t ← blanks t
  let t := match t with
    | '{' :: t => t.dropWhile isSpace
    | t => t
  let run := t.takeWhile isPortsChar
  match t.dropWhile isPortsChar with
  | '}' :: t => do
    let t ← blanks t
    let _ ← literal (lit "accept") t
    some (proto, digitRuns run)
  | t => do
    let _ ← run.getLast?.filter isSpace
    let _ ← literal (lit "accept") t
    some (proto, digitRuns run)

/-- The number that a run of digits denotes. -/
def natOf (digits : Text) : Nat := digits.foldl (fun n c => 10 * n + (c.toNat - '0'.toNat)) 0

/-- `re.search(r'#\s*handle\s+(\d+)', line)`. -/
def handleOf : Text → Option Nat
  | [] => none
  | c :: t =>
    let here := do
      let _ ← if c = '#' then some () else none
      let t ← literal (lit "handle") (t.dropWhile isSpace)
      let t ← blanks t
      let digits := t.takeWhile Char.isDigit
      if digits ≠ [] then some (natOf digits) else none
    here <|> handleOf t

/-- The fallback: one entry per port of every line of the text listing that matches. -/
def parseText (h : Host) (stdout : Text) : List Entry :=
  (splitlines stdout).flatMap fun line =>
    match portLine line with
    | some (proto, ports) => ports.map (h.entry (handleOf line) · proto)
    | none => []

/-- **`_parse_nft_open_ports`**, on the two listings. -/
def parseNftOpenPorts (h : Host) (rs : Ruleset) (stdout : Text) : List Entry :=
  match parseRules h rs.rules ⟨none, []⟩ [] with
  | [] => parseText h stdout
  | openPorts => openPorts

/-! ## A listing that shows no handles -/

theorem handleOf_eq_none {line : Text} (h : '#' ∉ line) : handleOf line = none := by
  induction line with
  | nil => rfl
  | cons c t ih =>
    have hc : c ≠ '#' := fun hc => h (hc ▸ List.mem_cons_self ..)
    rw [handleOf, ih fun hmem => h (List.mem_cons_of_mem _ hmem)]
    simp [hc]

theorem parseText_handle (h : Host) {stdout : Text} (hplain : '#' ∉ stdout) :
    ∀ e ∈ parseText h stdout, e.handle = none := by
  intro e he
  obtain ⟨line, hline, he⟩ := List.mem_flatMap.mp he
  have hnone : handleOf line = none :=
    handleOf_eq_none fun hmem => hplain (mem_of_mem_splitlines (by decide) hline hmem)
  split at he
  · obtain ⟨port, -, rfl⟩ := List.mem_map.mp he
    exact hnone
  · nomatch he

/-! ## Closing a port -/

/-- `nft delete rule inet filter input handle h`. -/
def deleteObject (handle : Nat) (objs : List NftObject) : List NftObject :=
  objs.filter fun
    | .rule r => !(r.inInput && r.handle == handle)
    | .other => true

theorem inputRules_deleteObject (handle : Nat) (objs : List NftObject) :
    inputRules (deleteObject handle objs) = (inputRules objs).filter (·.handle != handle) := by
  induction objs with
  | nil => rfl
  | cons o objs ih =>
    cases o with
    | other => simpa [inputRules, deleteObject] using ih
    | rule r =>
      by_cases hin : r.inInput
      · by_cases hh : r.handle = handle
        · simpa [inputRules, deleteObject, hin, hh] using ih
        · simpa [inputRules, deleteObject, hin, hh] using ih
      · simpa [inputRules, deleteObject, hin] using ih

/-- The deletion as an operation on rulesets. -/
def Ruleset.delete (rs : Ruleset) (handle : Nat) : Ruleset where
  objects := deleteObject handle rs.objects
  handle_pos r hr := by
    rw [inputRules_deleteObject] at hr
    exact rs.handle_pos r (List.mem_of_mem_filter hr)
  handle_nodup := by
    rw [inputRules_deleteObject]
    exact rs.handle_nodup.sublist (List.filter_sublist.map _)

@[simp] theorem Ruleset.delete_rules (rs : Ruleset) (handle : Nat) :
    (rs.delete handle).rules = rs.rules.filter (·.handle != handle) :=
  inputRules_deleteObject handle rs.objects

/-- What the operator is told; `closed` carries the ruleset that is left. -/
inductive Outcome where
  | refused
  | notFound
  | noHandle
  | failed
  | closed (left : Ruleset)

/-- **`op_firewall_del_port_key`**.  `runs` says whether the `nft` command could run at all. -/
def opFirewallDelPortKey (h : Host) (rs : Ruleset) (stdout : Text) (runs : Bool) (key : Text) :
    Outcome :=
  if key = lit "22/tcp" then .refused
  else match (parseNftOpenPorts h rs stdout).find? (·.key = key) with
    | none => .notFound
    | some target =>
      match target.handle with
      | none => .noHandle
      | some 0 => .noHandle
      | some handle =>
        if runs ∧ ∃ r ∈ rs.rules, r.handle = handle then .closed (rs.delete handle) else .failed

/-! ## What a rule opens -/

inductive L4 where
  | tcp | udp
  deriving DecidableEq, Repr

def L4.text : L4 → Text
  | .tcp => lit "tcp"
  | .udp => lit "udp"

/-- A port of a transport protocol. -/
structure Port where
  proto : L4
  number : Nat
  deriving DecidableEq, Repr

def Port.key (p : Port) : Text := portKey (decimal p.number) p.proto.text

section Semantics

-- the contents of the named sets
variable (sets : Text → Nat → Bool)

def Elem.contains (n : Nat) : Elem → Bool
  | .num m => n == m
  | .range lo hi => lo ≤ n && n ≤ hi
  | .other => false

def Right.contains (n : Nat) : Right → Bool
  | .num m => n == m
  | .set elems => elems.any (·.contains n)
  | .range lo hi => lo ≤ n && n ≤ hi
  | .named name => sets name n
  | .other => false

/-- An order comparison has a single number on its right. -/
def Right.compare (f : Nat → Bool) : Right → Bool
  | .num m => f m
  | _ => false

def Match.holds (m : Match) (n : Nat) : Bool :=
  match m.op with
  | .eq => m.right.contains sets n
  | .ne => !m.right.contains sets n
  | .lt => m.right.compare (n < ·)
  | .gt => m.right.compare (n > ·)
  | .le => m.right.compare (n ≤ ·)
  | .ge => m.right.compare (n ≥ ·)

/-- A match on the destination port of TCP or UDP. -/
def Match.onDport (m : Match) : Bool :=
  (m.protocol == lit "tcp" || m.protocol == lit "udp") && m.field == lit "dport"

/-- **`Rule.opens`** — an accept rule with a destination-port match opens the ports that all of its
destination-port matches admit. -/
def Rule.opens (r : Rule) (p : Port) : Prop :=
  r.hasAccept = true ∧ (∃ m, .isMatch m ∈ r.expr ∧ m.onDport = true) ∧
    ∀ m, .isMatch m ∈ r.expr → m.onDport = true →
      m.protocol = p.proto.text ∧ m.holds sets p.number = true

def Ruleset.opens (rs : Ruleset) (p : Port) : Prop := ∃ r ∈ rs.rules, r.opens sets p

/-- **`ClosesExactly`** — the port under `key` is closed, and no other port is. -/
structure ClosesExactly (rs left : Ruleset) (key : Text) : Prop where
  closes : ∀ p : Port, p.key = key → ¬ left.opens sets p
  keeps : ∀ p : Port, p.key ≠ key → rs.opens sets p → left.opens sets p

/-- **`Removable`** — rule `r` is all that opens the port under `key`, and every other port it opens
is opened by another rule. -/
structure Removable (rs : Ruleset) (r : Rule) (key : Text) : Prop where
  sole : ∀ q ∈ rs.rules, q ≠ r → ∀ p : Port, p.key = key → ¬ q.opens sets p
  covered : ∀ p : Port, p.key ≠ key → r.opens sets p → ∃ q ∈ rs.rules, q ≠ r ∧ q.opens sets p

end Semantics

/-! ## When a deletion closes exactly one port -/

/-- The rule whose handle the first entry for `key` carries. -/
def foundRule (h : Host) (rs : Ruleset) (stdout : Text) (key : Text) : Option Rule := do
  let target ← (parseNftOpenPorts h rs stdout).find? (·.key = key)
  let handle ← target.handle
  rs.rules.find? (·.handle = handle)

/-- A success deletes the rule that was found. -/
theorem opFirewallDelPortKey_closed {h : Host} {rs left : Ruleset} {stdout key : Text} {runs : Bool}
    (hclosed : opFirewallDelPortKey h rs stdout runs key = .closed left) :
    ∃ r ∈ rs.rules, foundRule h rs stdout key = some r ∧ left = rs.delete r.handle := by
  unfold opFirewallDelPortKey at hclosed
  split at hclosed
  · nomatch hclosed
  · split at hclosed
    · nomatch hclosed
    · rename_i target hfind
      split at hclosed
      · nomatch hclosed
      · nomatch hclosed
      · rename_i handle _ hhandle
        split at hclosed
        · rename_i hex
          cases hclosed
          obtain ⟨r, hr⟩ : ∃ r, rs.rules.find? (·.handle = handle) = some r := by
            rw [← Option.isSome_iff_exists, List.find?_isSome]
            obtain ⟨-, r, hr, hrh⟩ := hex
            exact ⟨r, hr, by simpa using hrh⟩
          have hrh : r.handle = handle := by simpa using List.find?_some hr
          refine ⟨r, List.mem_of_find?_eq_some hr, ?_, by rw [hrh]⟩
          simp [foundRule, hfind, hhandle, hr]
        · nomatch hclosed

/-- Handles are distinct, so deleting by handle removes one rule. -/
theorem mem_delete_rules {rs : Ruleset} {r : Rule} (hr : r ∈ rs.rules) (q : Rule) :
    q ∈ (rs.delete r.handle).rules ↔ q ∈ rs.rules ∧ q ≠ r := by
  rw [Ruleset.delete_rules, List.mem_filter]
  refine and_congr_right fun hq => ?_
  have hinj := List.inj_on_of_nodup_map rs.handle_nodup hq hr
  simp only [bne_iff_ne]
  exact ⟨fun hne heq => hne (congrArg _ heq), fun hne heq => hne (hinj heq)⟩

theorem opens_delete_iff {sets : Text → Nat → Bool} {rs : Ruleset} {r : Rule} (hr : r ∈ rs.rules)
    (p : Port) :
    (rs.delete r.handle).opens sets p ↔ ∃ q ∈ rs.rules, q ≠ r ∧ q.opens sets p := by
  simp only [Ruleset.opens, mem_delete_rules hr, and_assoc]

/-- `<proto> dport <right> accept`. -/
def dportRule (handle : Nat) (proto : L4) (right : Right) : Rule where
  family := lit "inet"
  table := lit "filter"
  chain := lit "input"
  handle := handle
  expr := [.isMatch ⟨.eq, proto.text, lit "dport", right⟩, .accept]

theorem dportRule_opens_iff (sets : Text → Nat → Bool) (handle : Nat) (proto : L4) (right : Right)
    (p : Port) : (dportRule handle proto right).opens sets p ↔
      p.proto = proto ∧ right.contains sets p.number = true := by
  have hdport : (⟨.eq, proto.text, lit "dport", right⟩ : Match).onDport = true := by
    cases proto <;> rfl
  have hproto : proto.text = p.proto.text ↔ p.proto = proto := by
    cases proto <;> cases p.proto <;> decide
  constructor
  · rintro ⟨-, -, hall⟩
    obtain ⟨hp, hh⟩ := hall _ (List.mem_cons_self ..) hdport
    exact ⟨hproto.mp hp, hh⟩
  · rintro ⟨hp, hh⟩
    refine ⟨rfl, ⟨_, List.mem_cons_self .., hdport⟩, fun m hm _ => ?_⟩
    obtain rfl : m = ⟨.eq, proto.text, lit "dport", right⟩ := by simpa [dportRule] using hm
    exact ⟨hproto.mpr hp, hh⟩

def quietHost : Host := ⟨fun _ => [], fun _ => []⟩

def noSets : Text → Nat → Bool := fun _ _ => false

/-- `tcp dport { 22, 53 } accept` and nothing else. -/
def sshAndDns : Ruleset where
  objects := [.rule (dportRule 4 .tcp (.set [.num 22, .num 53]))]
  handle_pos := by decide
  handle_nodup := by decide

/-- `tcp dport 22 accept` and `tcp dport 8443 accept`. -/
def sshAndPanel : Ruleset where
  objects := [.rule (dportRule 4 .tcp (.num 22)), .rule (dportRule 5 .tcp (.num 8443))]
  handle_pos := by decide
  handle_nodup := by decide

end ProxyGateway.Firewall
