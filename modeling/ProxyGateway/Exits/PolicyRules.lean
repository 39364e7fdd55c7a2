/-
# ProxyGateway.Exits.PolicyRules — `ensure_single_exit_rule`

Traffic for an exit carries the mark `0x1`, and one policy rule sends it to the table `100`.  The
function looks for that rule in the text that `ip -4 rule show` prints, adds it if there is none, and
deletes all but the first that it finds, each by its priority.

The text is searched for `fwmark 0x1` and `lookup 100`, wherever they stand: `fwmark 0x10` and `lookup
1000` have them too.  And a priority may be shared: the rule deleted is the first one that has it.

`single_iff` says that nothing else can go wrong: the table ends with one rule of the exit, all others
as they were and no change on a second run, exactly if no other rule has the two texts and the first
rules of each priority, as many as are surplus there, are rules of the exit.
-/
import ProxyGateway.Lang.Text
import ProxyGateway.Logic.KeyedErase
import Mathlib.Data.List.Infix

namespace ProxyGateway.Exits

open ProxyGateway.Lang ProxyGateway.Logic

/-! ## The table, and its text -/

/-- A policy rule, in the parts that `ip -4 rule show` prints one after the other. -/
structure PolicyRule where
  priority : Nat
  /-- `not`, source, destination and type of service -/
  selector : Text
  /-- with its mask, if it has one: `0x1/0xff` -/
  mark : Option Text
  /-- interfaces, user ids, protocol and ports -/
  flow : Text
  table : Option Text
  /-- realms, other actions, the protocol that installed the rule -/
  tail : Text
deriving DecidableEq

/-- `EXIT_MARK` -/
def exitMark : Text := lit "0x1"

/-- `EXIT_TABLE` -/
def exitTable : Text := lit "100"

/-- The line of `ip -4 rule show`. -/
def PolicyRule.line (r : PolicyRule) : Text :=
  decimal r.priority ++ lit ":\t" ++ r.selector ++ (r.mark.map (lit " fwmark " ++ ·)).getD [] ++ r.flow ++
    (r.table.map (lit " lookup " ++ ·)).getD [] ++ r.tail

/-- awk's `line ~ needle`, for a needle without metacharacters. -/
def hasText (needle line : Text) : Bool := line.tails.any needle.isPrefixOf

/-- `$0 ~ ("fwmark " m) && $0 ~ ("lookup " t)` -/
def matchesExit (line : Text) : Bool :=
  hasText (lit "fwmark " ++ exitMark) line && hasText (lit "lookup " ++ exitTable) line

/-- What separates awk's fields. -/
def isBlank (c : Char) : Bool := c == ' ' || c == '\t' || c == '\n'

/-- `gsub(":", "", $1); print $1` -/
def ruleField (line : Text) : Text :=
  ((line.dropWhile isBlank).takeWhile (!isBlank ·)).filter (· != ':')

/-- `prefs` -/
def prefs (rules : List PolicyRule) : List Text :=
  (rules.map PolicyRule.line).filterMap fun line => if matchesExit line then some (ruleField line) else none

/-- The rule of the exit. -/
def exitRule (priority : Nat) : PolicyRule where
  priority := priority
  selector := lit "from all"
  mark := some exitMark
  flow := []
  table := some exitTable
  tail := []

section Ensure

variable (chosen : List PolicyRule → Nat)

/-- `ip -4 rule add fwmark … table …`: the kernel chooses the priority, and puts the rule behind all of
its priority. -/
def ruleAdd (rules : List PolicyRule) : List PolicyRule :=
  let p := chosen rules
  rules.takeWhile (·.priority ≤ p) ++ exitRule p :: rules.dropWhile (·.priority ≤ p)

/-- `ip -4 rule del priority …`: the first rule of the priority. -/
def ruleDel (rules : List PolicyRule) (pref : Text) : List PolicyRule :=
  eraseFirst (fun r => decimal r.priority) rules pref

/-- **`ensure_single_exit_rule`** -/
def ensureSingleExitRule (rules : List PolicyRule) : List PolicyRule :=
  match prefs rules with
  | [] => ruleAdd chosen rules
  | _ :: surplus => surplus.foldl ruleDel rules

/-! ## What it is for -/

/-- The rule has the mark of the exits and looks up their table. -/
def PolicyRule.isExit (r : PolicyRule) : Bool := r.mark = some exitMark ∧ r.table = some exitTable

/-- The rule is one that the search finds. -/
def PolicyRule.found (r : PolicyRule) : Bool := matchesExit r.line

/-- One rule of the exit is left, the other rules are as they were, and a second run changes nothing. -/
structure Single (rules : List PolicyRule) : Prop where
  one : (ensureSingleExitRule chosen rules).countP (·.isExit) = 1
  others : (ensureSingleExitRule chosen rules).filter (!·.isExit) = rules.filter (!·.isExit)
  again : ensureSingleExitRule chosen (ensureSingleExitRule chosen rules) =
    ensureSingleExitRule chosen rules

end Ensure

/-- How many rules of the exit, but for the first, have the priority. -/
def surplusAt (rules : List PolicyRule) (priority : Nat) : Nat :=
  (((rules.filter (·.isExit)).drop 1).map (·.priority)).count priority

/-- No other rule has the two texts, and no other rule comes before the surplus ones of its priority. -/
structure Separate (rules : List PolicyRule) : Prop where
  marked : ∀ r ∈ rules, r.found = true → r.isExit = true
  first : ∀ p, ∀ r ∈ (rules.filter (·.priority = p)).take (surplusAt rules p), r.isExit = true

/-! ## The text -/

theorem hasText_of_infix {needle line : Text} (h : needle <:+: line) : hasText needle line = true := by
  obtain ⟨a, b, rfl⟩ := h
  refine List.any_eq_true.mpr ⟨needle ++ b, (List.mem_tails _ _).mpr ⟨a, by simp⟩, ?_⟩
  exact List.isPrefixOf_iff_prefix.mpr (List.prefix_append needle b)

theorem found_of_isExit {r : PolicyRule} (h : r.isExit = true) : r.found = true := by
  obtain ⟨hmark, htable⟩ : r.mark = some exitMark ∧ r.table = some exitTable := by
    simpa [PolicyRule.isExit] using h
  have hline : r.line = decimal r.priority ++ lit ":\t" ++ r.selector ++ lit " " ++
      (lit "fwmark " ++ exitMark) ++ r.flow ++ lit " " ++ (lit "lookup " ++ exitTable) ++ r.tail := by
    simp only [PolicyRule.line, hmark, htable, Option.map_some, Option.getD_some]
    simp [lit]
  rw [PolicyRule.found, matchesExit, Bool.and_eq_true, hline]
  constructor
  · exact hasText_of_infix ⟨decimal r.priority ++ lit ":\t" ++ r.selector ++ lit " ",
      r.flow ++ lit " " ++ (lit "lookup " ++ exitTable) ++ r.tail, by simp⟩
  · exact hasText_of_infix ⟨_, r.tail, rfl⟩

theorem isDigit_of_isBlank {c : Char} (h : isBlank c = true) : c.isDigit = false := by
  simp only [isBlank, Bool.or_eq_true, beq_iff_eq] at h
  rcases h with (rfl | rfl) | rfl <;> rfl

/-- awk reads the priority back. -/
theorem ruleField_line (r : PolicyRule) : ruleField r.line = decimal r.priority := by
  have hblank : ∀ c ∈ decimal r.priority, isBlank c = false := by
    intro c hc
    by_contra h
    have hdigit := isDigit_of_isBlank (Bool.not_eq_false _ ▸ h)
    rw [decimal_digits r.priority c hc] at hdigit
    exact absurd hdigit (by simp)
  have hcolon : ∀ c ∈ decimal r.priority, (c != ':') = true := by
    intro c hc
    rw [bne_iff_ne]
    rintro rfl
    exact absurd (decimal_digits r.priority ':' hc) (by decide)
  obtain ⟨rest, hrest⟩ : ∃ rest, r.line = decimal r.priority ++ ':' :: '\t' :: rest := by
    simp [PolicyRule.line, lit]
  have hdrop : r.line.dropWhile isBlank = r.line := by
    rw [hrest]
    cases hdec : decimal r.priority with
    | nil => rfl
    | cons c cs =>
      have hc := hblank c (by simp [hdec])
      rw [List.cons_append, List.dropWhile_cons_of_neg (by simp [hc])]
  have htake : r.line.takeWhile (!isBlank ·) = decimal r.priority ++ [':'] := by
    rw [hrest, List.takeWhile_append_of_pos (fun c hc => by simp [hblank c hc])]
    rfl
  rw [ruleField, hdrop, htake, List.filter_append, List.filter_eq_self.mpr hcolon]
  simp

theorem prefs_eq (rules : List PolicyRule) :
    prefs rules = (rules.filter (·.found)).map fun r => decimal r.priority := by
  induction rules with
  | nil => rfl
  | cons r rules ih =>
    unfold prefs at ih ⊢
    rw [List.map_cons, List.filterMap_cons, ih, ruleField_line]
    by_cases h : r.found = true
    · have hline : matchesExit r.line = true := h
      rw [if_pos hline, List.filter_cons_of_pos h, List.map_cons]
    · have hline : ¬ matchesExit r.line = true := h
      rw [if_neg hline, List.filter_cons_of_neg h]

/-! ## One run -/

section Run

variable (chosen : List PolicyRule → Nat) {rules : List PolicyRule}

/-- Without the two texts, the rule is added. -/
theorem ensureSingleExitRule_of_none (h : rules.filter (·.found) = []) :
    ensureSingleExitRule chosen rules = ruleAdd chosen rules := by
  rw [ensureSingleExitRule, prefs_eq, h]
  rfl

/-- With them, a rule of the priority goes for each that has them, but for the first. -/
theorem ensureSingleExitRule_of_some (h : rules.filter (·.found) ≠ []) :
    ensureSingleExitRule chosen rules =
      eraseKeys (·.priority) rules
        (((rules.filter (·.found)).drop 1).map (·.priority)) := by
  obtain ⟨r, surplus, hsurplus⟩ := List.exists_cons_of_ne_nil h
  have hprefs : prefs rules = decimal r.priority :: (surplus.map (·.priority)).map decimal := by
    rw [prefs_eq, hsurplus, List.map_cons, List.map_map]
    rfl
  rw [ensureSingleExitRule, hprefs, hsurplus]
  exact eraseKeys_comp decimal_injective rules _

/-- The rules of the exit are among those with the two texts. -/
theorem filter_found (h : ∀ r ∈ rules, r.found = true → r.isExit = true) :
    rules.filter (·.found) = rules.filter (·.isExit) :=
  List.filter_congr fun r hr => Bool.eq_iff_iff.mpr ⟨h r hr, found_of_isExit⟩

theorem ruleAdd_eq (rules : List PolicyRule) :
    ∃ pre post, rules = pre ++ post ∧ ruleAdd chosen rules = pre ++ exitRule (chosen rules) :: post :=
  ⟨_, _, (List.takeWhile_append_dropWhile).symm, rfl⟩

theorem single_of_none (h : rules.filter (·.found) = []) : Single chosen rules := by
  have hno : ∀ r ∈ rules, r.found = false := by
    intro r hr
    simpa using List.filter_eq_nil_iff.mp h r hr
  have hnone : ∀ r ∈ rules, r.isExit = false := by
    intro r hr
    by_contra hexit
    have hmatch := found_of_isExit (Bool.not_eq_false _ ▸ hexit)
    rw [hno r hr] at hmatch
    exact absurd hmatch (by simp)
  have hnew : (exitRule (chosen rules)).isExit = true := by simp [PolicyRule.isExit, exitRule]
  have hensure := ensureSingleExitRule_of_none chosen h
  obtain ⟨pre, post, hrules, hadd⟩ := ruleAdd_eq chosen rules
  rw [hadd] at hensure
  rw [hrules] at hnone hno
  have hpre : pre.countP (·.isExit) = 0 :=
    List.countP_eq_zero.mpr fun r hr => by simp [hnone r (List.mem_append_left _ hr)]
  have hpost : post.countP (·.isExit) = 0 :=
    List.countP_eq_zero.mpr fun r hr => by simp [hnone r (List.mem_append_right _ hr)]
  refine ⟨?_, ?_, ?_⟩
  · rw [hensure, List.countP_append, List.countP_cons, hpre, hpost, if_pos hnew]
  · rw [hensure, List.filter_append, List.filter_cons_of_neg (by simp [hnew]), hrules, List.filter_append]
  · -- the second run finds the new rule only
    have hmatch : (pre ++ exitRule (chosen rules) :: post).filter (·.found) =
        [exitRule (chosen rules)] := by
      rw [List.filter_append, List.filter_cons_of_pos (found_of_isExit hnew),
        List.filter_eq_nil_iff.mpr fun r hr => by simp [hno r (List.mem_append_left _ hr)],
        List.filter_eq_nil_iff.mpr fun r hr => by simp [hno r (List.mem_append_right _ hr)]]
      rfl
    rw [hensure, ensureSingleExitRule_of_some chosen (by simp [hmatch]), hmatch]
    rfl

/-- Each rule that goes is there to go. -/
theorem length_ensureSingleExitRule (h : rules.filter (·.found) ≠ []) :
    (ensureSingleExitRule chosen rules).length + ((rules.filter (·.found)).drop 1).length =
      rules.length := by
  have hsub : (((rules.filter (·.found)).drop 1).map (·.priority)).Sublist
      (rules.map (·.priority)) := ((List.drop_sublist 1 _).trans List.filter_sublist).map _
  have hall : ∀ p, (rules.map (·.priority)).count p = (ofKey (·.priority) rules p).length := by
    intro p
    rw [count_map_key, ofKey, ← List.countP_eq_length_filter]
  have hthere : ∀ p, (((rules.filter (·.found)).drop 1).map (·.priority)).count p ≤
      (ofKey (·.priority) rules p).length := fun p => (hsub.count_le p).trans_eq (hall p)
  have hlen := length_eraseKeys hthere
  rw [List.length_map] at hlen
  rw [ensureSingleExitRule_of_some chosen h, hlen]

/-- Where only rules of the exit have the two texts, the surplus is what is deleted. -/
theorem others_iff (h : rules.filter (·.found) ≠ [])
    (hmarked : ∀ r ∈ rules, r.found = true → r.isExit = true) :
    (ensureSingleExitRule chosen rules).filter (!·.isExit) = rules.filter (!·.isExit) ↔
      ∀ p, ∀ r ∈ (rules.filter (·.priority = p)).take (surplusAt rules p), r.isExit = true := by
  rw [ensureSingleExitRule_of_some chosen h, filter_found hmarked]
  exact eraseKeys_spares_iff

/-- As many are deleted as there are rules of the exit, but for one. -/
theorem one_of_others (h : rules.filter (·.found) ≠ [])
    (hmarked : ∀ r ∈ rules, r.found = true → r.isExit = true)
    (hothers : (ensureSingleExitRule chosen rules).filter (!·.isExit) = rules.filter (!·.isExit)) :
    (ensureSingleExitRule chosen rules).countP (·.isExit) = 1 := by
  have hsplit : ∀ l : List PolicyRule, l.length = l.countP (·.isExit) + (l.filter (!·.isExit)).length := by
    intro l
    rw [List.length_eq_countP_add_countP (·.isExit), ← List.countP_eq_length_filter]
    congr 1
    exact List.countP_congr fun r _ => by simp
  have hlen := length_ensureSingleExitRule chosen h
  have hafter := hsplit (ensureSingleExitRule chosen rules)
  have hbefore := hsplit rules
  have hpos := List.length_pos_of_ne_nil h
  rw [filter_found hmarked, ← List.countP_eq_length_filter] at hpos
  rw [filter_found hmarked, List.length_drop, ← List.countP_eq_length_filter] at hlen
  rw [hothers] at hafter
  omega

/-- **`single_iff`** — one rule of the exit is left, the others as they were and a second run without
effect, exactly if nothing else has the two texts or stands before the surplus of its priority. -/
theorem single_iff (chosen : List PolicyRule → Nat) (rules : List PolicyRule) :
    Single chosen rules ↔ Separate rules := by
  by_cases h : rules.filter (·.found) = []
  · -- nothing has the two texts: the rule is added
    have hnone : rules.filter (·.isExit) = [] := List.filter_eq_nil_iff.mpr fun r hr hexit =>
      List.filter_eq_nil_iff.mp h r hr (found_of_isExit hexit)
    refine iff_of_true (single_of_none chosen h) ⟨fun r hr hmatch => ?_, fun p r hr => ?_⟩
    · exact absurd hmatch (List.filter_eq_nil_iff.mp h r hr)
    · rw [surplusAt, hnone] at hr
      exact absurd hr (by simp)
  constructor
  · intro hsingle
    have hmarked : ∀ r ∈ rules, r.found = true → r.isExit = true := by
      intro r hr hmatch
      by_contra hexit
      -- a foreign rule stays next to the exit's own, and the second run deletes for it
      have hstays : r ∈ ensureSingleExitRule chosen rules := by
        have hmem : r ∈ rules.filter (!·.isExit) := List.mem_filter.mpr ⟨hr, by simpa using hexit⟩
        rw [← hsingle.others] at hmem
        exact (List.mem_filter.mp hmem).1
      obtain ⟨own, hown, hownExit⟩ := List.countP_pos_iff.mp (hsingle.one ▸ Nat.one_pos)
      have hfound : r ∈ (ensureSingleExitRule chosen rules).filter (·.found) :=
        List.mem_filter.mpr ⟨hstays, hmatch⟩
      have hfoundOwn : own ∈ (ensureSingleExitRule chosen rules).filter (·.found) :=
        List.mem_filter.mpr ⟨hown, found_of_isExit hownExit⟩
      have hagain := length_ensureSingleExitRule chosen (List.ne_nil_of_mem hfound)
      rw [hsingle.again] at hagain
      have hlen : ((ensureSingleExitRule chosen rules).filter (·.found)).length ≤ 1 := by
        rw [List.length_drop] at hagain
        omega
      obtain ⟨only, honly⟩ := List.length_eq_one_iff.mp (hlen.antisymm (List.length_pos_of_mem hfound))
      rw [honly, List.mem_singleton] at hfound hfoundOwn
      exact hexit (hfound.trans hfoundOwn.symm ▸ hownExit)
    exact ⟨hmarked, (others_iff chosen h hmarked).mp hsingle.others⟩
  · intro hsep
    have hothers := (others_iff chosen h hsep.marked).mpr hsep.first
    have hone := one_of_others chosen h hsep.marked hothers
    refine ⟨hone, hothers, ?_⟩
    have hmarked : ∀ r ∈ ensureSingleExitRule chosen rules, r.found = true → r.isExit = true := by
      intro r hr
      rw [ensureSingleExitRule_of_some chosen h] at hr
      exact hsep.marked r ((eraseKeys_sublist rules _).subset hr)
    rw [List.countP_eq_length_filter, ← filter_found hmarked] at hone
    obtain ⟨only, honly⟩ := List.length_eq_one_iff.mp hone
    rw [ensureSingleExitRule_of_some chosen (by simp [honly]), honly]
    rfl

end Run

/-! ## A table with a foreign mark -/

/-- Another program's rule for its own mark `0x10`, and behind it the rule of the exit. -/
def markedRules : List PolicyRule :=
  [{ exitRule 100 with mark := some (lit "0x10") }, exitRule 32765]

theorem foreign_mark_deletes_exit : ¬ ∀ (chosen : List PolicyRule → Nat) (rules : List PolicyRule),
    Single chosen rules := by
  intro h
  have hone := (h (fun _ => 0) markedRules).one
  have hnone : (ensureSingleExitRule (fun _ => 0) markedRules).countP (·.isExit) = 0 := by decide
  omega

end ProxyGateway.Exits
