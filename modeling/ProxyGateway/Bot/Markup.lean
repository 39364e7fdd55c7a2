/-
# ProxyGateway.Bot.Markup — long messages, and where they are cut

A message is HTML: tags that open and close elements, and entities.  Telegram refuses one whose elements
are not closed or whose last tag or entity is cut off.  `send` cuts a text at every 3900th character,
and `edit` drops what is behind the 4096th; neither looks at the markup.

So a balanced text stays balanced exactly if none of these cuts falls into a tag, an entity or an
element (`survives_iff`).  The list of rules is one element from its first line to its last, and does not
survive once it is long enough to be cut (`not_survives_opShowRules`).  Where `send` itself escapes and
wraps the text (`mono`) it cuts first, and all its chunks are balanced.
-/
import ProxyGateway.Lang.Lines
import ProxyGateway.Logic.Pieces
import ProxyGateway.Smart.Edits
import ProxyGateway.Dns.CustomDns

namespace ProxyGateway.Bot

open ProxyGateway.Lang ProxyGateway.Logic ProxyGateway.Dns ProxyGateway.Smart

/-! ## What the bot posts -/

def apostrophe : Char := Char.ofNat 39

/-- `html.escape` of a character -/
def escapeChar (c : Char) : Text :=
  if c = '&' then lit "&amp;"
  else if c = '<' then lit "&lt;"
  else if c = '>' then lit "&gt;"
  else if c = '"' then lit "&quot;"
  else if c = apostrophe then lit "&#x27;"
  else [c]

/-- **`html.escape`** -/
def escape (t : Text) : Text := t.flatMap escapeChar

/-- `"<pre>" + html.escape(t) + "</pre>"` -/
def wrapPre (t : Text) : Text := lit "<pre>" ++ (escape t ++ lit "</pre>")

/-- `(text or "").strip() or "(no output)"` -/
def outputOf (text : Text) : Text := if strip text = [] then lit "(no output)" else strip text

/-- **`_chunks`** -/
def chunksOf (text : Text) (size : Nat) : List Text := if text = [] then [[]] else pieces size text

/-- **`send`**: the texts that it posts.  The keyboard goes with the last. -/
def sendTexts (mono : Bool) (text : Text) : List Text :=
  if mono then (pieces 3500 (outputOf text)).map wrapPre else chunksOf text 3900

/-- **`edit`**: the text that it posts.  If Telegram refuses it, `editSource` is sent. -/
def editSource (mono : Bool) (text : Text) : Text :=
  if mono then wrapPre ((outputOf text).take 3800) else text

def editText (mono : Bool) (text : Text) : Text := (editSource mono text).take 4096

/-- **`op_show_rules`** -/
def opShowRules (txt : Text) : Text :=
  let entries := (linesOf txt).filter isRuleEntry
  if entries = [] then lit "（还没有分流规则）\n用「✏️ 设置规则」粘贴一份，或「➕ 添加一条」。"
  else
    let body := joinWith '\n' <| entries.zipIdx.map fun (line, i) =>
      decimal (i + 1) ++ lit ". " ++ strip line
    lit "🧭 <b>当前分流规则</b>（" ++ decimal entries.length ++ lit " 条）：\n" ++ wrapPre body

/-! ## How Telegram reads it -/

/-- What a character is read in. -/
inductive Mode where
  | text
  | tag (body : Text)
  | quote (mark : Char) (body : Text)
  | entity (name : Text)
  deriving DecidableEq, Repr

/-- The elements that are open, the innermost first. -/
structure Reader where
  opened : List Text
  mode : Mode
  deriving DecidableEq, Repr

def Reader.start : Reader := ⟨[], .text⟩

/-- The name of an element, from what stands between the angle brackets. -/
def tagName (body : Text) : Text := (body.takeWhile fun c => !isSpace c).map Char.toLower

def isEntityChar (c : Char) : Bool := c.isAlphanum || c == '#'

/-- The end of a tag. -/
def Reader.endTag (r : Reader) (body : Text) : Option Reader :=
  match body, r.opened with
  | '/' :: name, top :: outer => if tagName name = top then some ⟨outer, .text⟩ else none
  | '/' :: _, [] => none
  | body, opened => if tagName body = [] then none else some ⟨tagName body :: opened, .text⟩

/-- The next character. -/
def Reader.read (r : Reader) (c : Char) : Option Reader :=
  match r.mode with
  | .text =>
    if c = '<' then some { r with mode := .tag [] }
    else if c = '&' then some { r with mode := .entity [] }
    else some r
  | .tag body =>
    if c = '>' then r.endTag body
    else if c = '<' then none
    else if c = '"' ∨ c = apostrophe then some { r with mode := .quote c (body ++ [c]) }
    else some { r with mode := .tag (body ++ [c]) }
  | .quote mark body =>
    if c = mark then some { r with mode := .tag (body ++ [c]) }
    else some { r with mode := .quote mark (body ++ [c]) }
  | .entity name =>
    if c = ';' then if name = [] then none else some { r with mode := .text }
    else if isEntityChar c then some { r with mode := .entity (name ++ [c]) }
    else none

/-- **`BalancedHtml`** — every element is closed, and no tag or entity is cut off. -/
def BalancedHtml (t : Text) : Prop := Returns Reader.read .start t

instance (t : Text) : Decidable (BalancedHtml t) := inferInstanceAs (Decidable (_ = _))

/-- What is seen of a message. -/
inductive Glyph where
  | char (c : Char)
  | entity (name : Text)
  deriving DecidableEq, Repr

def Reader.shows (r : Reader) (c : Char) : List Glyph :=
  match r.mode with
  | .text => if c = '<' ∨ c = '&' then [] else [.char c]
  | .entity name => if c = ';' then [.entity name] else []
  | _ => []

/-- **`visible`** — the content of a text. -/
def visible (t : Text) : List Glyph := written Reader.read Reader.shows .start t

/-- **`Survives`** — the chunks of `send` and the text of `edit` are balanced and short enough, and the
chunks have the content of the text. -/
structure Survives (text : Text) : Prop where
  chunks : ∀ c ∈ sendTexts false text, BalancedHtml c ∧ c.length ≤ 4096
  content : (sendTexts false text).flatMap visible = visible text
  edited : BalancedHtml (editText false text) ∧ (editText false text).length ≤ 4096

/-- **`CutsOutside`** — no cut falls into a tag, an entity or an element. -/
structure CutsOutside (text : Text) : Prop where
  chunks : ∀ k, k * 3900 < text.length → BalancedHtml (text.take (k * 3900))
  edited : BalancedHtml (text.take 4096)

theorem sendTexts_eq {text : Text} (h : text ≠ []) : sendTexts false text = pieces 3900 text :=
  if_neg h

/-! ## Text that opens and closes nothing -/

section Inert

variable {t u : Text}

/-- **`Inert`** — read inside elements, the text leaves them as they are, at every place in it. -/
structure Inert (t : Text) : Prop where
  whole : ∀ opened, run Reader.read ⟨opened, .text⟩ t = some ⟨opened, .text⟩
  front : ∀ opened n, ∃ mode, run Reader.read ⟨opened, .text⟩ (t.take n) = some ⟨opened, mode⟩

theorem inert_nil : Inert [] where
  whole _ := rfl
  front _ _ := ⟨.text, by rw [List.take_nil]; rfl⟩

theorem inert_append (ht : Inert t) (hu : Inert u) : Inert (t ++ u) where
  whole opened := by rw [run_append, ht.whole, Option.bind_some, hu.whole]
  front opened n := by
    rw [List.take_append]
    rcases Nat.le_total n t.length with hn | hn
    · rw [Nat.sub_eq_zero_of_le hn, List.take_zero, List.append_nil]
      exact ht.front opened n
    · rw [List.take_of_length_le hn, run_append, ht.whole, Option.bind_some]
      exact hu.front opened _

theorem inert_char {c : Char} (hc : c ≠ '<' ∧ c ≠ '&') : Inert [c] := by
  have hread : ∀ opened, run Reader.read ⟨opened, .text⟩ [c] = some ⟨opened, .text⟩ := by
    intro opened
    simp [run, Reader.read, hc]
  refine ⟨hread, fun opened n => ⟨.text, ?_⟩⟩
  cases n with
  | zero => rfl
  | succ n =>
    rw [List.take_succ_cons, List.take_nil]
    exact hread opened

theorem inert_of_plain (h : ∀ c ∈ t, c ≠ '<' ∧ c ≠ '&') : Inert t := by
  induction t with
  | nil => exact inert_nil
  | cons c t ih =>
    have hrest := ih fun d hd => h d (List.mem_cons_of_mem _ hd)
    exact inert_append (inert_char (h c (List.mem_cons_self ..))) hrest

/-- Inside an entity. -/
theorem run_entity {name : Text} (h : ∀ c ∈ name, isEntityChar c = true) (opened : List Text)
    (acc : Text) : run Reader.read ⟨opened, .entity acc⟩ name = some ⟨opened, .entity (acc ++ name)⟩ := by
  induction name generalizing acc with
  | nil => rw [List.append_nil]; rfl
  | cons c name ih =>
    have hc := h c (List.mem_cons_self ..)
    have hend : c ≠ ';' := by
      rintro rfl
      nomatch hc
    have hread : Reader.read ⟨opened, .entity acc⟩ c = some ⟨opened, .entity (acc ++ [c])⟩ := by
      simp [Reader.read, hend, hc]
    rw [run, hread, Option.bind_some, ih fun d hd => h d (List.mem_cons_of_mem _ hd),
      List.append_assoc, List.singleton_append]

theorem inert_entity (name : Text) (hne : name ≠ []) (hname : name.all isEntityChar = true) :
    Inert ('&' :: (name ++ [';'])) := by
  have h := List.all_eq_true.mp hname
  have hstart : ∀ opened t, run Reader.read ⟨opened, .text⟩ ('&' :: t) =
      run Reader.read ⟨opened, .entity []⟩ t := fun _ _ => rfl
  have hwhole : ∀ opened, run Reader.read ⟨opened, .text⟩ ('&' :: (name ++ [';'])) =
      some ⟨opened, .text⟩ := by
    intro opened
    rw [hstart, run_append, run_entity h, Option.bind_some]
    simp [run, Reader.read, hne]
  refine ⟨hwhole, fun opened n => ?_⟩
  cases n with
  | zero => exact ⟨.text, rfl⟩
  | succ n =>
    rw [List.take_succ_cons]
    rcases Nat.lt_or_ge name.length n with hn | hn
    · have hall : (name ++ [';']).take n = name ++ [';'] :=
        List.take_of_length_le (by rwa [List.length_append])
      rw [hall]
      exact ⟨.text, hwhole opened⟩
    · rw [List.take_append_of_le_length hn, hstart]
      exact ⟨_, run_entity (fun c hc => h c (List.mem_of_mem_take hc)) opened []⟩

/-- **`inert_escape`** — escaped text, whatever it was. -/
theorem inert_escape (t : Text) : Inert (escape t) := by
  induction t with
  | nil => exact inert_nil
  | cons c t ih =>
    refine inert_append ?_ ih
    unfold escapeChar
    split
    · exact inert_entity (lit "amp") (by decide) (by decide)
    split
    · exact inert_entity (lit "lt") (by decide) (by decide)
    split
    · exact inert_entity (lit "gt") (by decide) (by decide)
    split
    · exact inert_entity (lit "quot") (by decide) (by decide)
    split
    · exact inert_entity (lit "#x27") (by decide) (by decide)
    · next hamp hlt _ _ _ => exact inert_char ⟨hlt, hamp⟩

end Inert

/-! ## One element -/

section Element

variable {t : Text}

theorem run_pre : run Reader.read .start (lit "<pre>") = some ⟨[lit "pre"], .text⟩ := by decide

theorem wrapPre_eq (t : Text) : wrapPre t = lit "<pre>" ++ (escape t ++ lit "</pre>") := rfl

/-- **`balanced_wrapPre`** -/
theorem balanced_wrapPre (t : Text) : BalancedHtml (wrapPre t) := by
  have hend : run Reader.read ⟨[lit "pre"], .text⟩ (lit "</pre>") = some .start := by decide
  rw [BalancedHtml, Returns, wrapPre_eq, run_append, run_pre, Option.bind_some, run_append,
    (inert_escape t).whole, Option.bind_some, hend]

/-- **`balanced_wrapPre_take`** — no beginning of it is balanced. -/
theorem balanced_wrapPre_take {n : Nat} :
    BalancedHtml ((wrapPre t).take n) ↔ n = 0 ∨ (wrapPre t).length ≤ n := by
  have hopening : ∀ m ≤ 5, 0 < m → ¬ BalancedHtml ((lit "<pre>").take m) := by decide
  have hclosing : ∀ m < 6, run Reader.read ⟨[lit "pre"], .text⟩ ((lit "</pre>").take m) ≠
      some .start := by decide
  have hpre : (lit "<pre>").length = 5 := rfl
  have hslash : (lit "</pre>").length = 6 := rfl
  constructor
  · intro h
    by_contra hn
    rw [not_or, Nat.not_le] at hn
    rcases Nat.le_total n 5 with hle | hle
    · -- cut in `<pre>`
      rw [wrapPre_eq, List.take_append_of_le_length (hle.trans_eq hpre.symm)] at h
      exact hopening n hle (Nat.pos_of_ne_zero hn.1) h
    rw [BalancedHtml, Returns, wrapPre_eq, List.take_append, List.take_of_length_le (hpre.trans_le hle),
      run_append, run_pre, Option.bind_some, hpre, List.take_append] at h
    rcases Nat.le_total (n - 5) (escape t).length with hm | hm
    · -- in the text, where the element is open
      rw [Nat.sub_eq_zero_of_le hm, List.take_zero, List.append_nil] at h
      obtain ⟨mode, hmode⟩ := (inert_escape t).front [lit "pre"] (n - 5)
      rw [hmode] at h
      nomatch h
    · -- in `</pre>`
      rw [List.take_of_length_le hm, run_append, (inert_escape t).whole, Option.bind_some] at h
      refine hclosing _ ?_ h
      have hlength := hn.2
      rw [wrapPre_eq, List.length_append, List.length_append, hpre, hslash] at hlength
      omega
  · rintro (rfl | h)
    · exact returns_nil
    · rw [List.take_of_length_le h]
      exact balanced_wrapPre t

/-- The chunks that `send` makes of plain text. -/
theorem balanced_mono (text : Text) : ∀ c ∈ sendTexts true text, BalancedHtml c := by
  intro c hc
  obtain ⟨piece, -, rfl⟩ := List.mem_map.mp hc
  exact balanced_wrapPre piece

end Element

/-! ## The list of rules -/

section Rules

variable {txt : Text}

theorem inert_decimal (n : Nat) : Inert (decimal n) := by
  refine inert_of_plain fun c hc => ?_
  have hdigit := decimal_digits n c hc
  constructor
  · rintro rfl
    nomatch hdigit
  · rintro rfl
    nomatch hdigit

/-- The heading above the list. -/
def rulesHeading (count : Nat) : Text :=
  lit "🧭 <b>当前分流规则</b>（" ++ decimal count ++ lit " 条）：\n"

theorem balanced_rulesHeading (count : Nat) : BalancedHtml (rulesHeading count) := by
  have hfirst : BalancedHtml (lit "🧭 <b>当前分流规则</b>（") := by decide
  have hlast : BalancedHtml (lit " 条）：\n") := by decide
  unfold rulesHeading BalancedHtml
  rw [List.append_assoc]
  refine (returns_append hfirst _).mpr ?_
  exact (returns_append ((inert_decimal count).whole []) _).mpr hlast

/-- The heading is no longer than 30 characters for up to a billion of rules. -/
theorem length_rulesHeading {count : Nat} (h : count < 10 ^ 9) : (rulesHeading count).length ≤ 30 := by
  have hdigits : (decimal count).length ≤ 9 :=
    (Nat.length_toDigits_le_iff (by omega) (by omega)).mpr h
  have hfirst : (lit "🧭 <b>当前分流规则</b>（").length = 16 := rfl
  have hlast : (lit " 条）：\n").length = 5 := rfl
  unfold rulesHeading
  rw [List.length_append, List.length_append]
  omega

/-- What `op_show_rules` returns: a sentence, or the heading and one element. -/
theorem opShowRules_eq (txt : Text) :
    BalancedHtml (opShowRules txt) ∧ (opShowRules txt).length ≤ 3900 ∨
      ∃ body, opShowRules txt = rulesHeading ((linesOf txt).filter isRuleEntry).length ++ wrapPre body := by
  unfold opShowRules
  dsimp only
  split
  · exact .inl ⟨by decide, by decide⟩
  · exact .inr ⟨_, rfl⟩

theorem balanced_opShowRules (txt : Text) : BalancedHtml (opShowRules txt) := by
  rcases opShowRules_eq txt with h | ⟨body, h⟩
  · exact h.1
  · rw [h, BalancedHtml, returns_append (balanced_rulesHeading _)]
    exact balanced_wrapPre body

/-- **`not_survives_opShowRules`** — the list of rules is cut apart once it is longer than a chunk. -/
theorem not_survives_opShowRules (hcount : ((linesOf txt).filter isRuleEntry).length < 10 ^ 9)
    (hlong : 3900 < (opShowRules txt).length) : ¬ Survives (opShowRules txt) := by
  intro h
  obtain ⟨body, heq⟩ := (opShowRules_eq txt).resolve_left fun hshort =>
    absurd hshort.2 (Nat.not_le.mpr hlong)
  have hne : opShowRules txt ≠ [] := by
    rintro hnil
    rw [hnil] at hlong
    nomatch hlong
  have hcut : BalancedHtml ((opShowRules txt).take (1 * 3900)) := by
    have hchunks := h.chunks
    rw [sendTexts_eq hne] at hchunks
    exact (returns_pieces_iff (by omega) (balanced_opShowRules txt)).mp
      (fun c hc => (hchunks c hc).1) 1 hlong
  have hheading := length_rulesHeading hcount
  -- the heading fits into the first chunk, so the cut is in the element
  rw [heq, List.take_append, List.take_of_length_le (by omega), BalancedHtml,
    returns_append (balanced_rulesHeading _)] at hcut
  rw [heq, List.length_append] at hlong
  rcases balanced_wrapPre_take.mp hcut with hzero | hall
  · omega
  · omega

end Rules

/-! ## Cuts -/

section Cuts

variable {text : Text}

/-- **`survives_iff`** — a balanced text survives exactly if it is cut outside its markup; plain text that
`edit` wraps does if it is not cut at all. -/
theorem survives_iff (ht : BalancedHtml text) :
    (Survives text ↔ CutsOutside text) ∧
      (BalancedHtml (editText true text) ↔ (editSource true text).length ≤ 4096) := by
  constructor
  · by_cases hne : text = []
    · subst hne
      refine iff_of_true ⟨?_, rfl, by decide⟩ ⟨fun k hk => absurd hk (by simp), by decide⟩
      decide
    have hpos : 0 < 3900 := by omega
    constructor
    · intro h
      have hchunks := h.chunks
      rw [sendTexts_eq hne] at hchunks
      exact ⟨(returns_pieces_iff hpos ht).mp fun c hc => (hchunks c hc).1, h.edited.1⟩
    · intro h
      have hpieces := (returns_pieces_iff hpos ht).mpr h.chunks
      constructor
      · rw [sendTexts_eq hne]
        exact fun c hc => ⟨hpieces c hc, (length_le_of_mem_pieces hpos hc).trans (by omega)⟩
      · rw [sendTexts_eq hne]
        exact written_pieces hpos hpieces
      · exact ⟨h.edited, List.length_take_le _ _⟩
  · rw [editText, editSource, if_pos rfl, balanced_wrapPre_take]
    exact or_iff_right (by omega)

theorem survives_bold :
    (Survives (lit "<b>4 &lt; 5</b>") ↔ CutsOutside (lit "<b>4 &lt; 5</b>")) ∧
      (BalancedHtml (editText true (lit "<b>4 &lt; 5</b>")) ↔
        (editSource true (lit "<b>4 &lt; 5</b>")).length ≤ 4096) :=
  survives_iff (by decide)

/-- A long element is cut in two, and neither half is balanced. -/
theorem long_element_cut :
    ¬ ∀ text : Text, BalancedHtml text → Survives text := by
  intro hclaim
  have hbalanced := balanced_wrapPre (List.replicate 4000 'a')
  have hlength : 4000 ≤ (escape (List.replicate 4000 'a')).length := by
    have hsame : ∀ n, escape (List.replicate n 'a') = List.replicate n 'a' := by
      intro n
      induction n with
      | zero => rfl
      | succ n ih => exact congrArg ('a' :: ·) ih
    rw [hsame, List.length_replicate]
  have hwhole : 3900 < (wrapPre (List.replicate 4000 'a')).length := by
    rw [wrapPre_eq, List.length_append, List.length_append]
    omega
  have hchunks := (hclaim _ hbalanced).chunks
  rw [sendTexts_eq (List.ne_nil_of_length_pos (by omega))] at hchunks
  have hcut := (returns_pieces_iff (by omega) hbalanced).mp (fun c hc => (hchunks c hc).1) 1 (by omega)
  rcases balanced_wrapPre_take.mp hcut with hzero | hall
  · omega
  · omega

end Cuts

end ProxyGateway.Bot
