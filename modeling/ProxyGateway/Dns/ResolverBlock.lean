/-
# ProxyGateway.Dns.ResolverBlock — `rewrite_sniproxy_dns`, one rewrite after another

The function takes the first line that trims to the header of a resolver block and the first line after it
that trims to a closing brace, and puts a block of its own in the place of these two and what is between
them.  A second rewrite finds the block of the first (`FirstBlock.replaced`): nothing before it is a header,
and neither a name server nor the mode trims to a brace.

So the lines around the block stay for good, and of several rewrites the last one counts
(`rewriteFile_rewrites`).  The line ends do not stay: whatever ended a line before, a newline does after.
-/
import ProxyGateway.Dns.CustomDns
import ProxyGateway.Lang.Lines

namespace ProxyGateway.Dns

open ProxyGateway.Lang

/-! ## The file, and its block -/

/-- The line trims to the header of a resolver block. -/
def isHeader (line : Text) : Bool := strip line = lit "resolver \x7b"

/-- The line trims to a closing brace. -/
def isFooter (line : Text) : Bool := strip line = lit "\x7d"

/-- **`rewrite_sniproxy_dns`** on `sniproxy.conf`; a file without a block stays. -/
def DnsTools.rewriteFile (T : DnsTools) (input conf : Text) : Text :=
  (rewriteResolver (T.nameservers input) conf).getD conf

/-- A header, and later a closing brace. -/
def HasBlock (lines : List Text) : Prop :=
  ∃ before header body footer after, lines = before ++ header :: (body ++ footer :: after) ∧
    isHeader header = true ∧ isFooter footer = true

/-- What the function takes for the block. -/
structure FirstBlock (lines before : List Text) (header : Text) (body : List Text) (footer : Text)
    (after : List Text) : Prop where
  split : lines = before ++ header :: (body ++ footer :: after)
  first : ∀ line ∈ before, isHeader line = false
  header : isHeader header = true
  inside : ∀ line ∈ body, isFooter line = false
  footer : isFooter footer = true

/-- `$(render_sniproxy_dns_nameservers …)`: what the Python part gets and splits. -/
def DnsTools.nameserversArg (T : DnsTools) (input : Text) : Text :=
  captured ((T.nameservers input).flatMap (· ++ ['\n']))

/-- The lines of a file, with a newline behind each. -/
def textOf (lines : List Text) : Text := joinWith '\n' lines ++ ['\n']

/-- Two rewrites are the second one, the first block is replaced and nothing else; and without a block
nothing happens. -/
structure Rewrites (T : DnsTools) (a b conf : Text) : Prop where
  lastWins : HasBlock (fileLines conf) → T.rewriteFile b (T.rewriteFile a conf) = T.rewriteFile b conf
  only : HasBlock (fileLines conf) → ∃ before header body footer after,
    FirstBlock (fileLines conf) before header body footer after ∧
      fileLines (T.rewriteFile b conf) = before ++ resolverBlock (T.nameservers b) ++ after
  unchanged : ¬ HasBlock (fileLines conf) → T.rewriteFile b conf = conf

/-! ## Finding it -/

section Find

variable {lines before body after : List Text} {header footer : Text}

theorem findIdx?_first {α : Type*} {p : α → Bool} {pre : List α} {a : α} (post : List α)
    (hpre : ∀ x ∈ pre, p x = false) (ha : p a = true) :
    (pre ++ a :: post).findIdx? p = some pre.length := by
  induction pre with
  | nil => rw [List.nil_append, List.findIdx?_cons, if_pos ha]; rfl
  | cons x pre ih =>
    rw [List.cons_append, List.findIdx?_cons, if_neg (by simp [hpre x (List.mem_cons_self)]),
      ih fun y hy => hpre y (List.mem_cons_of_mem _ hy)]
    rfl

theorem exists_first {α : Type*} {p : α → Bool} {l : List α} {x : α} (hx : x ∈ l) (hp : p x = true) :
    ∃ pre a post, l = pre ++ a :: post ∧ p a = true ∧ ∀ y ∈ pre, p y = false := by
  obtain ⟨a, hfind⟩ := Option.isSome_iff_exists.mp (List.find?_isSome.mpr ⟨x, hx, hp⟩)
  obtain ⟨ha, pre, post, hsplit, hpre⟩ := List.find?_eq_some_iff_append.mp hfind
  exact ⟨pre, a, post, hsplit, ha, fun y hy => by simpa using hpre y hy⟩

theorem split_of_findIdx? {α : Type*} {p : α → Bool} {l : List α} {i : Nat}
    (h : l.findIdx? p = some i) : ∃ pre a, l = pre ++ a :: l.drop (i + 1) ∧ p a = true := by
  obtain ⟨hlt, ha, -⟩ := List.findIdx?_eq_some_iff_getElem.mp h
  refine ⟨l.take i, l[i], ?_, ha⟩
  rw [← List.drop_eq_getElem_cons hlt, List.take_append_drop]

/-- The first header, and the first closing brace behind it. -/
theorem exists_firstBlock (h : HasBlock lines) :
    ∃ before header body footer after, FirstBlock lines before header body footer after := by
  obtain ⟨a, hd, b, ft, c, hlines, hheader, hfooter⟩ := h
  obtain ⟨before, header, rest, hsplit, hfirstHeader, hbefore⟩ :=
    exists_first (hlines ▸ List.mem_append_right a List.mem_cons_self : hd ∈ lines) hheader
  -- the footer is behind the first header, as it is behind some header
  have hmem : ft ∈ rest := by
    rw [hlines] at hsplit
    rcases List.append_eq_append_iff.mp hsplit with ⟨as, rfl, hrest⟩ | ⟨bs, rfl, hrest⟩
    · cases as with
      | nil =>
        obtain ⟨-, rfl⟩ := List.cons.inj hrest
        simp
      | cons x as =>
        obtain ⟨rfl, -⟩ := List.cons.inj hrest
        rw [hbefore hd (by simp)] at hheader
        exact absurd hheader (by simp)
    · cases bs with
      | nil =>
        obtain ⟨-, rfl⟩ := List.cons.inj hrest
        simp
      | cons x bs =>
        obtain ⟨-, rfl⟩ := List.cons.inj hrest
        simp
  obtain ⟨body, footer, after, hrest, hfirstFooter, hbody⟩ := exists_first hmem hfooter
  exact ⟨before, header, body, footer, after, hsplit.trans (by rw [hrest]), hbefore, hfirstHeader, hbody,
    hfirstFooter⟩

end Find

section Rewrite

variable {conf : Text} {before body after ns : List Text} {header footer : Text}

/-- The function finds that block. -/
theorem rewriteResolver_of_firstBlock (h : FirstBlock (fileLines conf) before header body footer after)
    (ns : List Text) :
    rewriteResolver ns conf = some (textOf (before ++ resolverBlock ns ++ after)) := by
  have hstart : (fileLines conf).findIdx? isHeader = some before.length := by
    rw [h.split]
    exact findIdx?_first _ h.first h.header
  have hdrop : (fileLines conf).drop (before.length + 1) = body ++ footer :: after := by
    rw [h.split, ← List.drop_drop, List.drop_left]
    rfl
  have hend : (body ++ footer :: after).findIdx? isFooter = some body.length :=
    findIdx?_first _ h.inside h.footer
  have htake : (fileLines conf).take before.length = before := by rw [h.split, List.take_left]
  have hafter : (fileLines conf).drop (before.length + body.length + 2) = after := by
    have hsum : before.length + body.length + 2 = before.length + 1 + (body.length + 1) := by omega
    rw [hsum, ← List.drop_drop, hdrop, ← List.drop_drop, List.drop_left]
    rfl
  unfold rewriteResolver
  simp only
  have hstart' : (fileLines conf).findIdx? (fun line => decide (strip line = lit "resolver \x7b")) =
    some before.length := hstart
  have hend' : (body ++ footer :: after).findIdx? (fun line => decide (strip line = lit "\x7d")) =
    some body.length := hend
  rw [hstart']
  simp only
  rw [hdrop, hend']
  simp only
  rw [htake, hafter]
  rfl

/-- Without a block there is nothing to rewrite. -/
theorem rewriteResolver_of_not (h : ¬ HasBlock (fileLines conf)) (ns : List Text) :
    rewriteResolver ns conf = none := by
  unfold rewriteResolver
  simp only
  split
  · rfl
  · next start hstart =>
    split
    · rfl
    · next len hend =>
      obtain ⟨before, header, hsplit, hheader⟩ := split_of_findIdx? hstart
      obtain ⟨body, footer, hrest, hfooter⟩ := split_of_findIdx? hend
      rw [hrest] at hsplit
      exact absurd ⟨before, header, body, footer, _, hsplit, hheader, hfooter⟩ h

/-! ## The file that is written -/

/-- No character ends a line. -/
def Unbroken (lines : List Text) : Prop := ∀ line ∈ lines, ∀ c ∈ line, isLineBreak c = false

theorem unbroken_fileLines (conf : Text) : Unbroken (fileLines conf) := by
  intro line hline c hc
  have hmem : line ∈ splitlines conf := by
    unfold fileLines at hline
    simp only at hline
    split at hline
    · exact (List.dropLast_sublist _).subset hline
    · exact hline
  exact (mem_of_mem_splitOnP hmem hc).2

theorem intercalate_concat (lines : List Text) (hne : lines ≠ []) :
    (lit "\n").intercalate (lines ++ [[]]) = (lit "\n").intercalate lines ++ ['\n'] := by
  induction lines with
  | nil => exact absurd rfl hne
  | cons line lines ih =>
    cases lines with
    | nil => simp [List.intercalate_cons_cons, lit]
    | cons next lines =>
      rw [List.cons_append, List.cons_append, List.intercalate_cons_cons, List.intercalate_cons_cons,
        ← List.cons_append, ih (List.cons_ne_nil _ _), List.append_assoc, List.append_assoc,
        List.append_assoc]

/-- A file that was written is read back line by line. -/
theorem fileLines_textOf {lines : List Text} (hne : lines ≠ []) (h : Unbroken lines) :
    fileLines (textOf lines) = lines := by
  have htext : textOf lines = (lit "\n").intercalate (lines ++ [[]]) :=
    (intercalate_concat lines hne).symm
  have hbreak : ∀ line ∈ lines ++ [[]], ∀ c ∈ line, isLineBreak c = false := by
    intro line hline c hc
    rcases List.mem_append.mp hline with hline | hline
    · exact h line hline c hc
    · rw [List.mem_singleton.mp hline] at hc
      exact absurd hc List.not_mem_nil
  have hplain : universalNewlines (textOf lines) = textOf lines := by
    apply universalNewlines_of_singleLine
    rw [htext]
    apply not_mem_intercalate (by decide)
    intro line hline hcr
    exact absurd (hbreak line hline '\r' hcr) (by decide)
  have hsplit : splitlines (textOf lines) = lines ++ [[]] := by
    rw [splitlines, hplain, htext]
    exact splitOnP_intercalate (by decide) (by simp) hbreak
  unfold fileLines
  simp [hsplit]

end Rewrite

/-! ## The rendered lines -/

section Rendered

variable {T : DnsTools}

/-- Behind the keyword there are only characters of an address. -/
theorem mem_nameservers {input line : Text} (h : line ∈ T.nameservers input) {c : Char} (hc : c ∈ line) :
    c ∈ lit "    nameserver " ∨ c.isDigit = true ∨ c ∈ lit "ABCDEFabcdef:." := by
  obtain ⟨item, hitem, rfl⟩ := List.mem_map.mp h
  have haddress := (List.mem_filter.mp hitem).2
  simp only [isAddressText, Bool.and_eq_true, List.all_eq_true, Bool.or_eq_true, decide_eq_true_eq]
    at haddress
  exact (List.mem_append.mp hc).imp_right (haddress.2 c)

theorem isLineBreak_of_isDigit {c : Char} (h : c.isDigit = true) : isLineBreak c = false := by
  have hrange : 48 ≤ c.toNat ∧ c.toNat ≤ 57 := by
    simpa [Char.isDigit, UInt32.le_iff_toNat_le] using h
  simp [isLineBreak]
  omega

theorem unbroken_nameservers (input : Text) : Unbroken (T.nameservers input) := by
  intro line hline c hc
  have hlit : ∀ c ∈ lit "    nameserver " ++ lit "ABCDEFabcdef:.", isLineBreak c = false :=
    List.all_iff_forall_prop.mp (by decide)
  rcases mem_nameservers hline hc with hc | hc | hc
  · exact hlit c (List.mem_append_left _ hc)
  · exact isLineBreak_of_isDigit hc
  · exact hlit c (List.mem_append_right _ hc)

theorem nil_not_mem_nameservers (input : Text) : [] ∉ T.nameservers input := by
  intro hmem
  obtain ⟨item, -, hitem⟩ := List.mem_map.mp hmem
  exact absurd (congrArg List.length hitem) (by simp [lit])

theorem flatMap_newline (lines : List Text) (hne : lines ≠ []) :
    lines.flatMap (· ++ ['\n']) = textOf lines := by
  induction lines with
  | nil => exact absurd rfl hne
  | cons line lines ih =>
    cases lines with
    | nil => simp [textOf, joinWith]
    | cons next lines =>
      rw [List.flatMap_cons, ih (List.cons_ne_nil _ _), textOf, textOf, joinWith, joinWith,
        List.intercalate_cons_cons]
      simp

/-- Lines that were joined are split again where none is empty. -/
theorem fileLines_joinWith {lines : List Text} (hne : lines ≠ []) (hbreak : Unbroken lines)
    (hnil : [] ∉ lines) :
    captured (textOf lines) = joinWith '\n' lines ∧ fileLines (joinWith '\n' lines) = lines := by
  have hsplit : (joinWith '\n' lines).splitOnP isLineBreak = lines :=
    splitOnP_intercalate (by decide) hne hbreak
  have hplain : universalNewlines (joinWith '\n' lines) = joinWith '\n' lines := by
    apply universalNewlines_of_singleLine
    apply not_mem_intercalate (by decide)
    intro line hline hcr
    exact absurd (hbreak line hline '\r' hcr) (by decide)
  constructor
  · rw [captured, textOf, List.rdropWhile_concat_pos _ _ _ rfl, List.rdropWhile_eq_self_iff]
    intro hjoined hlast
    -- a newline at the end would leave an empty line behind it
    have hend : joinWith '\n' lines = (joinWith '\n' lines).dropLast ++ '\n' :: [] := by
      conv_lhs => rw [← List.dropLast_append_getLast hjoined]
      rw [beq_iff_eq.mp hlast]
    rw [hend, List.splitOnP_append_cons _ _ (by decide)] at hsplit
    exact hnil (hsplit ▸ List.mem_append_right _ (by simp))
  · have hlines : splitlines (joinWith '\n' lines) = lines := by rw [splitlines, hplain, hsplit]
    unfold fileLines
    simp only [hlines]
    rw [if_neg fun hlast => hnil (List.mem_of_getLast? hlast)]

/-- The Python part gets the lines that were rendered. -/
theorem fileLines_nameserversArg (input : Text) :
    fileLines (T.nameserversArg input) = T.nameservers input := by
  by_cases hne : T.nameservers input = []
  · rw [DnsTools.nameserversArg, hne]
    rfl
  · obtain ⟨hcaptured, hlines⟩ :=
      fileLines_joinWith hne (unbroken_nameservers input) (nil_not_mem_nameservers input)
    rw [DnsTools.nameserversArg, flatMap_newline _ hne, hcaptured, hlines]

/-- A name server does not close the block. -/
theorem isFooter_nameserver {input line : Text} (h : line ∈ T.nameservers input) :
    isFooter line = false := by
  obtain ⟨item, -, rfl⟩ := List.mem_map.mp h
  have hmem : 'n' ∈ strip (lit "    nameserver " ++ item) :=
    mem_strip_of_mem (List.mem_append_left item (by decide)) rfl
  refine decide_eq_false fun hbrace => ?_
  rw [hbrace] at hmem
  exact absurd hmem (by decide)

/-- The block that was written is the first one then. -/
theorem FirstBlock.replaced {lines before body after : List Text} {header footer : Text}
    (h : FirstBlock lines before header body footer after) (input : Text) :
    FirstBlock (before ++ resolverBlock (T.nameservers input) ++ after) before (lit "resolver \x7b")
      (T.nameservers input ++ [lit "    mode ipv4_only"]) (lit "\x7d") after := by
  refine ⟨by simp [resolverBlock], h.first, by decide, fun line hline => ?_, by decide⟩
  rcases List.mem_append.mp hline with hline | hline
  · exact isFooter_nameserver hline
  · rw [List.mem_singleton.mp hline]
    decide

theorem unbroken_replaced {conf : Text} {before body after : List Text} {header footer : Text}
    (h : FirstBlock (fileLines conf) before header body footer after) (input : Text) :
    Unbroken (before ++ resolverBlock (T.nameservers input) ++ after) := by
  have hheader : ∀ c ∈ lit "resolver \x7b", isLineBreak c = false :=
    List.all_iff_forall_prop.mp (by decide)
  have hmode : ∀ c ∈ lit "    mode ipv4_only", isLineBreak c = false :=
    List.all_iff_forall_prop.mp (by decide)
  have hfooter : ∀ c ∈ lit "\x7d", isLineBreak c = false := List.all_iff_forall_prop.mp (by decide)
  have hall := unbroken_fileLines conf
  rw [h.split] at hall
  intro line hline
  simp only [resolverBlock, List.mem_append, List.mem_cons, List.not_mem_nil, or_false] at hline
  rcases hline with (hline | (rfl | hline) | rfl | rfl) | hline
  · exact hall line (by simp [hline])
  · exact hheader
  · exact unbroken_nameservers input line hline
  · exact hmode
  · exact hfooter
  · exact hall line (by simp [hline])

end Rendered

/-- What the command leaves of the file, whether it succeeds or not. -/
theorem rewriteSniproxyDns_file (T : DnsTools) (w : DnsDesk) :
    ((Cmd.call T.rewriteSniproxyDns).eval false w).2.files.sniproxyConf =
      w.files.sniproxyConf.map (T.rewriteFile w.remoteDns) := by
  cases hconf : w.files.sniproxyConf with
  | none => simp [DnsTools.rewriteSniproxyDns, Cmd.block, Cmd.eval, Cmd.test, Cmd.settle, hconf]
  | some conf =>
    cases hrewrite : rewriteResolver (T.nameservers w.remoteDns) conf with
    | none =>
      simp [DnsTools.rewriteSniproxyDns, DnsTools.rewriteFile, Cmd.block, Cmd.eval, Cmd.test, Cmd.settle,
        hconf, hrewrite]
    | some out =>
      simp [DnsTools.rewriteSniproxyDns, DnsTools.rewriteFile, Cmd.block, Cmd.eval, Cmd.test, Cmd.settle,
        hconf, hrewrite]

/-- **`rewriteFile_rewrites`** — of two rewrites the second one counts; the first block is replaced and no
other line; and where there is none the file stays. -/
theorem rewriteFile_rewrites (T : DnsTools) (a b conf : Text) : Rewrites T a b conf := by
  have hwrite : ∀ {conf : Text} {before body after : List Text} {header footer : Text},
      FirstBlock (fileLines conf) before header body footer after → ∀ input,
      T.rewriteFile input conf = textOf (before ++ resolverBlock (T.nameservers input) ++ after) := by
    intro conf before body after header footer h input
    rw [DnsTools.rewriteFile, rewriteResolver_of_firstBlock h, Option.getD_some]
  have hread : ∀ {conf : Text} {before body after : List Text} {header footer : Text},
      FirstBlock (fileLines conf) before header body footer after → ∀ input,
      fileLines (T.rewriteFile input conf) =
        before ++ resolverBlock (T.nameservers input) ++ after := by
    intro conf before body after header footer h input
    rw [hwrite h, fileLines_textOf (by simp [resolverBlock]) (unbroken_replaced h input)]
  refine ⟨fun h => ?_, fun h => ?_, fun h => ?_⟩
  · obtain ⟨before, header, body, footer, after, hblock⟩ := exists_firstBlock h
    have hagain := hblock.replaced (T := T) a
    rw [← hread hblock a] at hagain
    rw [hwrite hagain, hwrite hblock]
  · obtain ⟨before, header, body, footer, after, hblock⟩ := exists_firstBlock h
    exact ⟨before, header, body, footer, after, hblock, hread hblock b⟩
  · rw [DnsTools.rewriteFile, rewriteResolver_of_not h, Option.getD_none]

end ProxyGateway.Dns
