/-
# ProxyGateway.Smart.SetFinal — `op_set_final`, and the default that the router sees

The bot takes a line for the default if its stripped text starts with `FINAL,`.  The router cuts the
line at `#`, `;` and the commas and strips the first field.  What the bot recognises the router does
(`isFinal_of_startsFinal`); but a bare `FINAL`, or one with a blank or a comment before its comma, is a
default for the router only.  The bot leaves such a line where it is, and the first default wins.

The bot also cuts the file with `str.splitlines`, at characters that are no line end for the router.

`setFinal_iff` says that nothing else can go wrong: the submitted text has the default and the old rules
exactly if the two ways of cutting the file give the same rules, and the first default is one that the
bot knows, or resolves to the same target already.
-/
import ProxyGateway.Lang.Lines
import ProxyGateway.Smart.AddRule
import ProxyGateway.Smart.Import
import ProxyGateway.Smart.Lifecycle

namespace ProxyGateway.Smart

open ProxyGateway.Lang ProxyGateway.Logic

/-! ## The two readers of a default -/

/-- **`Host.Uppers`** — `str.upper` works character by character, leaves capitals and spaces alone, and
makes a comma of a comma only. -/
structure Host.Uppers (H : Host) : Prop where
  append : ∀ a b, H.upper (a ++ b) = H.upper a ++ H.upper b
  capital : ∀ t, isCapital t = true → H.upper t = t
  space : ∀ c, isSpace c = true → H.upper [c] = [c]
  comma : ∀ c, ',' ∈ H.upper [c] → c = ','

section Readers

variable (H : Host) (E : Exits) (m : PolicyMap)

/-- **`_final_target`** -/
def Host.finalTarget (txt : Text) : Option Text :=
  (((linesOf txt).map strip).find? H.startsFinal).bind fun s =>
    if ',' ∈ s then some (strip (after ',' s)) else none

/-- The target of a `FINAL` line. -/
def Host.finalOf (raw : Text) : Option Target :=
  match H.parseLine raw with
  | .final policy => some (H.resolveTarget E m (policy.getD H.defaultTarget))
  | _ => none

/-- The entry of a line that is no `FINAL`. -/
def Host.ruleOf (raw : Text) : Option (Entry Cond Target) :=
  (H.entry? E m raw).filter (·.cond.isSome)

/-- The router takes the line: it is blank, or it has an entry. -/
def Host.Reads (raw : Text) : Prop := H.parseLine raw = .blank ∨ (H.linePolicy raw).isSome = true

instance (H : Host) (raw : Text) : Decidable (H.Reads raw) := inferInstanceAs (Decidable (_ ∨ _))

/-- Finds the lines that the router does not take. -/
def Host.refused (raw : Text) : Option Unit := if H.Reads raw then none else some ()

/-- The targets of the `MATCH` entries. -/
def matchTargets (rules : List (Entry Cond Target)) : List Target :=
  rules.filterMap fun e => if e.cond.isNone then some e.target else none

variable {H E m} (hU : H.Uppers)

/-! ### Spaces -/

theorem ruleText_strip (raw : Text) : ruleText (strip raw) = ruleText raw := by
  have hhash : strip (before '#' (strip raw)) = strip (before '#' raw) :=
    strip_before_strip (by decide) raw
  have hsemi : ∀ u, strip (before ';' (strip u)) = strip (before ';' u) :=
    strip_before_strip (by decide)
  rw [ruleText, ← hsemi, hhash, hsemi, ruleText]

theorem parseLine_strip (raw : Text) : H.parseLine (strip raw) = H.parseLine raw := by
  unfold Host.parseLine
  rw [ruleText_strip]

theorem skipsSpaces_finalOf : SkipsSpaces (H.finalOf E m) where
  nil := rfl
  strip raw := by rw [Host.finalOf, parseLine_strip, Host.finalOf]

theorem skipsSpaces_ruleOf : SkipsSpaces (H.ruleOf E m) where
  nil := rfl
  strip raw := by rw [Host.ruleOf, Host.entry?, parseLine_strip, Host.ruleOf, Host.entry?]

theorem skipsSpaces_refused : SkipsSpaces H.refused where
  nil := rfl
  strip raw := by
    have hreads : H.Reads (strip raw) ↔ H.Reads raw := by
      rw [Host.Reads, Host.linePolicy, parseLine_strip]
      rfl
    simp only [Host.refused, hreads]

theorem refused_of_isFinal {raw : Text} (h : H.isFinal raw = true) : H.refused raw = none := by
  refine if_pos (.inr ?_)
  unfold Host.isFinal at h
  unfold Host.linePolicy
  cases hline : H.parseLine raw with
  | final policy => rfl
  | blank => simp [hline] at h
  | short line => simp [hline] at h
  | rule head value policy => simp [hline] at h

theorem reads_iff {lines : List Text} :
    (∀ raw ∈ lines, H.Reads raw) ↔ lines.filterMap H.refused = [] := by
  rw [List.filterMap_eq_nil_iff]
  refine forall₂_congr fun raw _ => ?_
  by_cases hreads : H.Reads raw <;> simp [Host.refused, hreads]

/-! ### What the bot recognises, the router does -/

section Upper
include hU

theorem upper_nil : H.upper [] = [] := hU.capital [] rfl

theorem startsFinal_nil : H.startsFinal [] = false := by
  rw [Host.startsFinal, upper_nil hU]
  rfl

theorem upper_subset {c : Char} {t : Text} (h : c ∈ t) : H.upper [c] ⊆ H.upper t := by
  obtain ⟨a, b, rfl⟩ := List.append_of_mem h
  have hsplit : H.upper (a ++ c :: b) = H.upper a ++ (H.upper [c] ++ H.upper b) := by
    rw [hU.append, ← hU.append [c] b, List.singleton_append]
  rw [hsplit]
  exact fun d hd => List.mem_append_right _ (List.mem_append_left _ hd)

/-- Upper case keeps the first comma where it is. -/
theorem before_upper (t : Text) : before ',' (H.upper t) = H.upper (before ',' t) := by
  induction t with
  | nil =>
    rw [upper_nil hU]
    exact (upper_nil hU).symm
  | cons c t ih =>
    rw [← List.singleton_append, hU.append]
    by_cases hc : c = ','
    · subst hc
      rw [hU.capital [','] (by decide)]
      exact (upper_nil hU).symm
    · have hcomma : ',' ∉ H.upper [c] := fun h => hc (hU.comma c h)
      have hcut : before ',' ([c] ++ t) = [c] ++ before ',' t := by
        rw [before_append_of_not_mem (by simpa using Ne.symm hc)]
      rw [before_append_of_not_mem hcomma, ih, hcut, hU.append]

/-- A character that upper case leaves alone is not in a word whose upper case lacks it. -/
theorem not_mem_of_upper {c : Char} {t word : Text} (ht : H.upper t = word)
    (hc : H.upper [c] = [c]) (hword : c ∉ word) : c ∉ t := by
  intro hmem
  apply hword
  rw [← ht]
  exact upper_subset hU hmem (by rw [hc]; exact List.mem_singleton_self c)

/-- What stands in front of the first comma. -/
theorem head_of_startsFinal {s : Text} (h : H.startsFinal s = true) :
    ∃ a b, s = a ++ ',' :: b ∧ H.upper a = lit "FINAL" := by
  obtain ⟨rest, hrest⟩ := List.isPrefixOf_iff_prefix.mp h
  have hhead : H.upper (before ',' s) = lit "FINAL" := by
    rw [← before_upper hU, ← hrest]
    rfl
  rcases eq_before_or ',' s with heq | ⟨b, hb⟩
  · -- without a comma in the text there is none in its upper case
    have hnot : ',' ∉ H.upper s := by
      rw [heq, ← before_upper hU]
      exact not_mem_before
    exact absurd (hrest ▸ List.mem_append_left _ (by decide)) hnot
  · exact ⟨before ',' s, b, hb, hhead⟩

theorem parseLine_of_startsFinal {raw : Text} (h : H.startsFinal (strip raw) = true) :
    ∃ policy, H.parseLine raw = .final policy := by
  obtain ⟨a, b, hs, ha⟩ := head_of_startsFinal hU h
  have hhash : '#' ∉ a := not_mem_of_upper hU ha (hU.capital _ (by decide)) (by decide)
  have hsemi : ';' ∉ a := not_mem_of_upper hU ha (hU.capital _ (by decide)) (by decide)
  have hcomma : ',' ∉ a := not_mem_of_upper hU ha (hU.capital _ (by decide)) (by decide)
  have hnospace : ∀ c ∈ a, isSpace c = false := by
    intro c hc
    by_contra hspace
    rw [Bool.not_eq_false] at hspace
    have hword : ∀ d ∈ lit "FINAL", isSpace d = false := List.all_iff_forall_prop.mp (by decide)
    have hmem : c ∈ lit "FINAL" := by
      rw [← ha]
      exact upper_subset hU hc (by rw [hU.space c hspace]; exact List.mem_singleton_self c)
    rw [hword c hmem] at hspace
    nomatch hspace
  -- the first field of the router is the text before the first comma of the bot
  have hcut : ∀ (sep : Char) (u : Text), sep ∉ a → sep ≠ ',' →
      before sep (a ++ ',' :: u) = a ++ ',' :: before sep u := by
    intro sep u hsep hne
    rw [before_append_of_not_mem hsep]
    simp [before, Ne.symm hne]
  have hstart : a.dropWhile isSpace = a := by
    have hself := dropWhile_strip a
    rwa [strip_of_noSpace hnospace] at hself
  obtain ⟨u, hu⟩ : ∃ u, ruleText raw = a ++ ',' :: u := by
    rw [← ruleText_strip, hs, ruleText, hcut '#' b hhash (by decide), hcut ';' _ hsemi (by decide),
      strip_append_cons (by decide), hstart]
    exact ⟨_, rfl⟩
  refine ⟨_, Host.parseLine_eq_final_iff.mpr ⟨?_, a, (u.splitOn ',').map strip, ?_, ?_, rfl⟩⟩
  · rw [hu]
    exact List.append_ne_nil_of_right_ne_nil _ (List.cons_ne_nil _ _)
  · rw [fields, hu, List.splitOn_append_cons_self_of_not_mem hcomma, List.map_cons,
      strip_of_noSpace hnospace]
  · rw [Host.ruleType, ha]
    rfl

/-- **`isFinal_of_startsFinal`** -/
theorem isFinal_of_startsFinal {raw : Text} (h : H.startsFinal (strip raw) = true) :
    H.isFinal raw = true := by
  obtain ⟨policy, hline⟩ := parseLine_of_startsFinal hU h
  rw [Host.isFinal, hline]

end Upper

end Readers

/-! ## The text that is submitted -/

section SetFinal

variable (H : Host) (E : Exits) (m : PolicyMap) (defaults : DefaultRules) (t file : Text)

/-- **`PlainTarget`** — a target that stands for itself in a line: the name of an exit, `direct` or
`block`. -/
structure PlainTarget : Prop where
  plain : PlainField t
  stripped : strip t = t
  oneLine : ∀ c ∈ t, isLineBreak c = false

/-- The rules that the router makes of a text behind the built-in ones. -/
def Host.rulesOf (text : Text) : List (Entry Cond Target) :=
  (pyLines (defaults.effective text)).filterMap (H.entry? E m)

/-- **`SetsFinal`** — the router takes every line of the submitted text, its first default is what the
target resolves to and what `_final_target` reads, and its other rules are the old ones. -/
def Host.SetsFinal : Prop :=
  ∃ text, H.opSetFinal t (readFile file) = some text ∧
    (∀ raw ∈ pyLines (defaults.effective text), H.Reads raw) ∧
    (matchTargets (H.rulesOf E m defaults text)).head? = some (H.resolveTarget E m t) ∧
    (H.rulesOf E m defaults text).filter (·.cond.isSome) =
      (H.rulesOf E m defaults file).filter (·.cond.isSome) ∧
    ∃ p, H.finalTarget (readFile text) = some p ∧
      (matchTargets (H.rulesOf E m defaults text)).head? = some (H.resolveTarget E m p)

/-- **`SameLines`** — cut by `str.splitlines`, the file has lines that the router takes and the same
rules as cut at its newlines. -/
structure Host.SameLines : Prop where
  reads : ∀ l ∈ splitlines file, H.Reads l
  rules : (splitlines file).filterMap (H.ruleOf E m) = (pyLines file).filterMap (H.ruleOf E m)

/-- **`KnowsDefault`** — the first default is one that the bot recognises, or has the target already; the
built-in rules, which the bot does not touch, come first. -/
structure Host.KnowsDefault : Prop where
  builtin : ∀ target, ((pyLines defaults.text).filterMap (H.finalOf E m)).head? = some target →
    target = H.resolveTarget E m t
  own : ((pyLines defaults.text).filterMap (H.finalOf E m)).head? = none →
    ∀ l, (splitlines file).find? H.isFinal = some l →
      H.startsFinal (strip l) = true ∨ H.finalOf E m l = some (H.resolveTarget E m t)

/-- What `op_set_final` makes of a line. -/
def Host.rewriteFinal (l : Text) : Option Text :=
  if H.startsFinal (strip l) then some (lit "FINAL," ++ t)
  else if strip l ≠ [] then some (strip l) else none

/-- The lines that it submits. -/
def Host.setFinalLines : List Text :=
  let lines := (splitlines file).filterMap (H.rewriteFinal t)
  if (splitlines file).any fun l => H.startsFinal (strip l) then lines
  else lines ++ [lit "FINAL," ++ t]

variable {H E m defaults t file} (hU : H.Uppers)

/-! ### Reading through `_read_file` -/

/-- The lines that the bot reads are those of the file, up to spaces. -/
theorem filterMap_linesOf {β : Type*} {q : Text → Option β} (hq : SkipsSpaces q) (file : Text) :
    (linesOf (readFile file)).filterMap q = (splitlines file).filterMap q := by
  have hcr : '\r' ∉ strip (universalNewlines file) := fun h =>
    return_not_mem_universalNewlines file (mem_of_mem_strip h)
  have hread : (splitlines (readFile file)).filterMap q = (splitlines file).filterMap q := by
    rw [splitlines, readFile, universalNewlines_of_singleLine hcr, hq.filterMap_strip, splitlines]
  rw [← hread, linesOf]
  split
  · next hnil =>
    have hone : splitlines [] = [[]] := rfl
    rw [hnil, hone, List.filterMap_cons_none hq.nil]
  · rfl

theorem skipsSpaces_rewriteFinal (hnil : H.startsFinal [] = false) :
    SkipsSpaces (H.rewriteFinal t) where
  nil := by
    have hstrip : strip [] = [] := rfl
    rw [Host.rewriteFinal, hstrip, hnil]
    rfl
  strip l := by rw [Host.rewriteFinal, strip_strip, Host.rewriteFinal]

theorem opSetFinal_eq (hnil : H.startsFinal [] = false) :
    H.opSetFinal t (readFile file) = opSetRules (joinLines (H.setFinalLines t file)) := by
  have hlines := filterMap_linesOf (skipsSpaces_rewriteFinal (t := t) hnil) file
  have hany : ((linesOf (readFile file)).any fun l => H.startsFinal (strip l)) =
      (splitlines file).any fun l => H.startsFinal (strip l) := by
    have hskips : SkipsSpaces fun l => if H.startsFinal (strip l) then some () else none :=
      ⟨by have hstrip : strip [] = [] := rfl; rw [hstrip, hnil]; rfl, fun l => by rw [strip_strip]⟩
    have hnonempty : ∀ lines : List Text, (lines.any fun l => H.startsFinal (strip l)) =
        !(lines.filterMap fun l => if H.startsFinal (strip l) then some () else none).isEmpty := by
      intro lines
      induction lines with
      | nil => rfl
      | cons l lines ih =>
        rw [List.any_cons, ih, List.filterMap_cons]
        cases H.startsFinal (strip l) <;> rfl
    rw [hnonempty, hnonempty, filterMap_linesOf hskips]
  unfold Host.opSetFinal Host.setFinalLines
  dsimp only
  rw [hany, ← hlines]
  rfl

/-- The submitted lines, each without spaces around it. -/
theorem mem_setFinalLines (ht : PlainTarget t) {line : Text} (h : line ∈ H.setFinalLines t file) :
    strip line = line ∧ line ≠ [] ∧ ∀ c ∈ line, isLineBreak c = false := by
  have hfinal : strip (lit "FINAL," ++ t) = lit "FINAL," ++ t ∧ lit "FINAL," ++ t ≠ [] ∧
      ∀ c ∈ lit "FINAL," ++ t, isLineBreak c = false := by
    refine ⟨strip_join (a := lit "FINAL") (by decide) (by decide) ht.stripped,
      List.append_ne_nil_of_left_ne_nil (by decide) _, fun c hc => ?_⟩
    rcases List.mem_append.mp hc with hc | hc
    · exact List.all_iff_forall_prop.mp
        (show ((lit "FINAL,").all fun c => decide (isLineBreak c = false)) = true by decide) c hc
    · exact ht.oneLine c hc
  have hrewritten : ∀ l ∈ splitlines file, H.rewriteFinal t l = some line →
      strip line = line ∧ line ≠ [] ∧ ∀ c ∈ line, isLineBreak c = false := by
    intro l hl hline
    unfold Host.rewriteFinal at hline
    split at hline
    · rw [← Option.some.inj hline]
      exact hfinal
    · split at hline
      · next hne =>
        rw [← Option.some.inj hline]
        exact ⟨strip_strip l, hne, fun c hc => (mem_of_mem_splitOnP hl (mem_of_mem_strip hc)).2⟩
      · cases hline
  have hlines : line ∈ (splitlines file).filterMap (H.rewriteFinal t) ∨
      line = lit "FINAL," ++ t := by
    unfold Host.setFinalLines at h
    dsimp only at h
    split at h
    · exact .inl h
    · rcases List.mem_append.mp h with h | h
      · exact .inl h
      · exact .inr (List.mem_singleton.mp h)
  rcases hlines with h | rfl
  · obtain ⟨l, hl, hline⟩ := List.mem_filterMap.mp h
    exact hrewritten l hl hline
  · exact hfinal

theorem final_mem_setFinalLines : lit "FINAL," ++ t ∈ H.setFinalLines t file := by
  unfold Host.setFinalLines
  dsimp only
  split
  · next hany =>
    obtain ⟨l, hl, hstarts⟩ := List.any_eq_true.mp hany
    refine List.mem_filterMap.mpr ⟨l, hl, ?_⟩
    rw [Host.rewriteFinal, if_pos hstarts]
  · exact List.mem_append_right _ (List.mem_singleton_self _)

/-- The bot leaves no other default that it recognises. -/
theorem eq_final_of_startsFinal {line : Text} (h : line ∈ H.setFinalLines t file)
    (hstarts : H.startsFinal (strip line) = true) : line = lit "FINAL," ++ t := by
  have hlines : line ∈ (splitlines file).filterMap (H.rewriteFinal t) → line = lit "FINAL," ++ t := by
    intro hmem
    obtain ⟨l, -, hline⟩ := List.mem_filterMap.mp hmem
    unfold Host.rewriteFinal at hline
    split at hline
    · exact (Option.some.inj hline).symm
    · next hnot =>
      split at hline
      · rw [← Option.some.inj hline, strip_strip] at hstarts
        exact absurd hstarts hnot
      · cases hline
  unfold Host.setFinalLines at h
  dsimp only at h
  split at h
  · exact hlines h
  · rcases List.mem_append.mp h with h | h
    · exact hlines h
    · exact List.mem_singleton.mp h

/-- What a reader of lines makes of the submitted ones. -/
theorem filterMap_setFinalLines {β : Type*} {q : Text → Option β} (hq : SkipsSpaces q) :
    (H.setFinalLines t file).filterMap q =
      ((splitlines file).filterMap fun l =>
        if H.startsFinal (strip l) then q (lit "FINAL," ++ t) else q l) ++
      if (splitlines file).any (fun l => H.startsFinal (strip l)) then []
      else (q (lit "FINAL," ++ t)).toList := by
  have hlines : ((splitlines file).filterMap (H.rewriteFinal t)).filterMap q =
      (splitlines file).filterMap fun l =>
        if H.startsFinal (strip l) then q (lit "FINAL," ++ t) else q l := by
    rw [List.filterMap_filterMap]
    refine List.filterMap_congr fun l _ => ?_
    rw [Host.rewriteFinal]
    by_cases hfinal : H.startsFinal (strip l) = true
    · rw [if_pos hfinal, if_pos hfinal, Option.bind_some]
    · rw [if_neg hfinal, if_neg hfinal]
      by_cases hblank : strip l = []
      · rw [if_neg (not_not_intro hblank), Option.bind_none, ← hq.strip, hblank, hq.nil]
      · rw [if_pos hblank, Option.bind_some, hq.strip]
  unfold Host.setFinalLines
  dsimp only
  split
  · rw [hlines, List.append_nil]
  · rw [List.filterMap_append, hlines]
    cases hlast : q (lit "FINAL," ++ t) <;> simp [hlast]

/-- What the router reads behind the built-in rules. -/
theorem filterMap_submitted (ht : PlainTarget t) {β : Type*} {q : Text → Option β}
    (hnil : q [] = none) :
    (pyLines (defaults.effective (joinLines (H.setFinalLines t file)))).filterMap q =
      (pyLines defaults.text).filterMap q ++ (H.setFinalLines t file).filterMap q := by
  have hsingle : ∀ line ∈ H.setFinalLines t file, SingleLine line := by
    intro line hline
    have hbreak := (mem_setFinalLines ht hline).2.2
    refine ⟨fun h => ?_, fun h => ?_⟩
    · exact absurd (hbreak '\n' h) (by decide)
    · exact absurd (hbreak '\r' h) (by decide)
  rw [DefaultRules.effective, filterMap_pyLines_terminated hnil defaults.terminated, joinLines,
    filterMap_pyLines_append hnil, filterMap_pyLines_nil hnil, List.append_nil,
    filterMap_pyLines_intercalate hnil hsingle]

/-- The submitted text has newlines only. -/
theorem universalNewlines_submitted (ht : PlainTarget t) :
    universalNewlines (joinLines (H.setFinalLines t file)) = joinLines (H.setFinalLines t file) := by
  apply universalNewlines_of_singleLine
  intro h
  rcases List.mem_append.mp h with h | h
  · refine not_mem_intercalate (by decide) (fun line hline hmem => ?_) h
    exact absurd ((mem_setFinalLines ht hline).2.2 '\r' hmem) (by decide)
  · exact absurd h (by decide)

/-- The submitted text, read by the bot again. -/
theorem splitlines_submitted (ht : PlainTarget t) {β : Type*} {q : Text → Option β}
    (hq : SkipsSpaces q) : (splitlines (joinLines (H.setFinalLines t file))).filterMap q =
      (H.setFinalLines t file).filterMap q := by
  have hbreak : ∀ line ∈ H.setFinalLines t file, ∀ c ∈ line, isLineBreak c = false :=
    fun line hline => (mem_setFinalLines ht hline).2.2
  have hne : H.setFinalLines t file ≠ [] := List.ne_nil_of_mem final_mem_setFinalLines
  rw [splitlines, universalNewlines_submitted ht, joinLines,
    List.splitOnP_append_cons _ [] (by decide), splitOnP_intercalate (by decide) hne hbreak,
    List.filterMap_append, List.splitOnP_nil, List.filterMap_cons_none hq.nil, List.filterMap_nil,
    List.append_nil]

/-! ### The new line, and the old defaults -/

/-- A file that the router takes consists of lines that it takes. -/
theorem reads_of_mihomoConfig {text : Text} {cfg : MihomoConfig}
    (h : H.mihomoConfig E m text = .ok cfg) : ∀ raw ∈ pyLines text, H.Reads raw := by
  intro raw hraw
  unfold Host.mihomoConfig at h
  split at h
  · nomatch h
  · next out hout =>
    obtain ⟨ln, o, ho⟩ := emitLines_ok_line hout hraw
    unfold Host.Reads Host.linePolicy
    unfold Host.emitLine at ho
    unfold Host.cond?
    cases hline : H.parseLine raw with
    | blank => exact .inl rfl
    | short line => simp [hline] at ho
    | final p => exact .inr rfl
    | rule head value p =>
      cases htype : mihomoType (H.ruleType head) with
      | none => simp [hline, htype] at ho
      | some t => cases t <;> exact .inr (by simp [htype])

theorem matchTargets_rulesOf (text : Text) : matchTargets (H.rulesOf E m defaults text) =
    (pyLines (defaults.effective text)).filterMap (H.finalOf E m) := by
  rw [matchTargets, Host.rulesOf, List.filterMap_filterMap]
  refine List.filterMap_congr fun raw _ => ?_
  unfold Host.entry? Host.finalOf
  cases H.parseLine raw with
  | rule head value policy => cases hk : H.cond? head value <;> simp [hk]
  | _ => rfl

theorem filter_rulesOf (text : Text) : (H.rulesOf E m defaults text).filter (·.cond.isSome) =
    (pyLines (defaults.effective text)).filterMap (H.ruleOf E m) :=
  List.filter_filterMap

theorem ruleOf_of_isFinal {raw : Text} (h : H.isFinal raw = true) : H.ruleOf E m raw = none := by
  unfold Host.isFinal at h
  unfold Host.ruleOf Host.entry?
  cases hline : H.parseLine raw with
  | final policy => rfl
  | blank => rfl
  | short line => rfl
  | rule head value policy => simp [hline] at h

theorem isFinal_iff_finalOf {raw : Text} :
    H.isFinal raw = true ↔ ∃ target, H.finalOf E m raw = some target := by
  unfold Host.isFinal Host.finalOf
  cases H.parseLine raw <;> simp

section Final
include hU

theorem parseLine_final (ht : PlainTarget t) :
    H.parseLine (lit "FINAL," ++ t) = .final (some t) := by
  have hstrip : strip (lit "FINAL" ++ ',' :: t) = lit "FINAL" ++ ',' :: t :=
    strip_join (by decide) (by decide) ht.stripped
  have htext : ruleText (lit "FINAL," ++ t) = lit "FINAL" ++ ',' :: t := by
    have hword : '#' ∉ lit "FINAL" ∧ ';' ∉ lit "FINAL" := by decide
    have hhash : '#' ∉ lit "FINAL" ++ ',' :: t := by simp [hword.1, ht.plain.1]
    have hsemi : ';' ∉ lit "FINAL" ++ ',' :: t := by simp [hword.2, ht.plain.2.1]
    show strip (before ';' (before '#' (lit "FINAL" ++ ',' :: t))) = _
    rw [before_of_not_mem hhash, before_of_not_mem hsemi, hstrip]
  refine Host.parseLine_eq_final_iff.mpr ⟨?_, lit "FINAL", [t], ?_, ?_, rfl⟩
  · rw [htext]
    exact List.append_ne_nil_of_right_ne_nil _ (List.cons_ne_nil _ _)
  · rw [fields, htext, List.splitOn_append_cons_self_of_not_mem (by decide),
      List.splitOn_eq_singleton ht.plain.2.2, List.map_cons, List.map_singleton, ht.stripped]
    rfl
  · rw [Host.ruleType, hU.capital _ (by decide)]
    rfl

theorem finalOf_final (ht : PlainTarget t) :
    H.finalOf E m (lit "FINAL," ++ t) = some (H.resolveTarget E m t) := by
  rw [Host.finalOf, parseLine_final hU ht]
  rfl

theorem startsFinal_final (ht : PlainTarget t) :
    H.startsFinal (strip (lit "FINAL," ++ t)) = true := by
  have hstrip : strip (lit "FINAL" ++ ',' :: t) = lit "FINAL" ++ ',' :: t :=
    strip_join (by decide) (by decide) ht.stripped
  show (lit "FINAL,").isPrefixOf (H.upper (strip (lit "FINAL" ++ ',' :: t))) = true
  rw [hstrip]
  show (lit "FINAL,").isPrefixOf (H.upper (lit "FINAL," ++ t)) = true
  rw [hU.append, hU.capital (lit "FINAL,") (by decide), List.isPrefixOf_iff_prefix]
  exact List.prefix_append _ _

/-- A reader that makes nothing of a default reads the same lines as before. -/
theorem filterMap_setFinalLines_of_final {β : Type*} {q : Text → Option β} (hq : SkipsSpaces q)
    (ht : PlainTarget t) (hfinal : ∀ raw, H.isFinal raw = true → q raw = none) :
    (H.setFinalLines t file).filterMap q = (splitlines file).filterMap q := by
  have hnew : q (lit "FINAL," ++ t) = none :=
    hfinal _ (isFinal_iff_finalOf.mpr ⟨_, finalOf_final (E := ⟨[], []⟩) (m := []) hU ht⟩)
  have hlines : ((splitlines file).filterMap fun l =>
      if H.startsFinal (strip l) then q (lit "FINAL," ++ t) else q l) =
        (splitlines file).filterMap q := by
    refine List.filterMap_congr fun l _ => ?_
    split
    · next hstarts => rw [hnew, hfinal l (isFinal_of_startsFinal hU hstarts)]
    · rfl
  rw [filterMap_setFinalLines hq, hlines, hnew]
  split <;> exact List.append_nil _

theorem startsFinal_eq_false {l : Text} (h : H.isFinal l = false) : H.startsFinal (strip l) = false := by
  by_contra hstarts
  rw [Bool.not_eq_false] at hstarts
  have hfinal := isFinal_of_startsFinal hU hstarts
  rw [h] at hfinal
  nomatch hfinal

/-- Lines that are no default give none, whatever is submitted. -/
theorem filterMap_submitted_eq_nil {lines : List Text} (h : ∀ l ∈ lines, H.isFinal l = false) :
    (lines.filterMap fun l =>
      if H.startsFinal (strip l) then some (H.resolveTarget E m t) else H.finalOf E m l) = [] := by
  rw [List.filterMap_eq_nil_iff]
  intro l hl
  rw [startsFinal_eq_false hU (h l hl), if_neg Bool.false_ne_true]
  cases hof : H.finalOf E m l with
  | none => rfl
  | some target =>
    have hfinal := isFinal_iff_finalOf.mpr ⟨target, hof⟩
    rw [h l hl] at hfinal
    nomatch hfinal

/-- **`head_finals_iff`** — the first default of the submitted lines. -/
theorem head_finals_iff (ht : PlainTarget t) :
    ((H.setFinalLines t file).filterMap (H.finalOf E m)).head? = some (H.resolveTarget E m t) ↔
      ∀ l, (splitlines file).find? H.isFinal = some l →
        H.startsFinal (strip l) = true ∨ H.finalOf E m l = some (H.resolveTarget E m t) := by
  rw [filterMap_setFinalLines skipsSpaces_finalOf, finalOf_final hU ht]
  cases hfind : (splitlines file).find? H.isFinal with
  | none =>
    -- without a default the new line is the only one
    have hnone : ∀ l ∈ splitlines file, H.isFinal l = false := fun l hl => by
      simpa using List.find?_eq_none.mp hfind l hl
    have hany : ((splitlines file).any fun l => H.startsFinal (strip l)) = false :=
      List.any_eq_false.mpr fun l hl => by simp [startsFinal_eq_false hU (hnone l hl)]
    rw [filterMap_submitted_eq_nil hU hnone, hany]
    exact iff_of_true rfl nofun
  | some l =>
    obtain ⟨hfinal, pre, post, hsplit, hpre⟩ := List.find?_eq_some_iff_append.mp hfind
    obtain ⟨target, hof⟩ := (isFinal_iff_finalOf (E := E) (m := m)).mp hfinal
    have hempty : (pre.filterMap fun l =>
        if H.startsFinal (strip l) then some (H.resolveTarget E m t) else H.finalOf E m l) = [] :=
      filterMap_submitted_eq_nil hU fun l' hl' => by simpa using hpre l' hl'
    have hhead : (((splitlines file).filterMap fun l =>
        if H.startsFinal (strip l) then some (H.resolveTarget E m t) else H.finalOf E m l) ++
          if (splitlines file).any (fun l => H.startsFinal (strip l)) then []
          else (some (H.resolveTarget E m t)).toList).head? =
        if H.startsFinal (strip l) then some (H.resolveTarget E m t) else some target := by
      rw [hsplit, List.filterMap_append, hempty, List.nil_append, List.filterMap_cons, hof]
      cases H.startsFinal (strip l) <;> rfl
    rw [hhead]
    constructor
    · rintro h l' hl'
      obtain rfl := Option.some.inj hl'
      by_cases hstarts : H.startsFinal (strip l) = true
      · exact .inl hstarts
      · rw [if_neg hstarts] at h
        exact .inr (hof.trans h)
    · intro h
      split
      · rfl
      · next hstarts => exact hof.symm.trans ((h l rfl).resolve_left hstarts)

/-- Afterwards `_final_target` reads the target. -/
theorem finalTarget_submitted (ht : PlainTarget t) :
    H.finalTarget (readFile (joinLines (H.setFinalLines t file))) = some t := by
  set q : Text → Option Text := fun l => if H.startsFinal (strip l) then some (strip l) else none
    with hqdef
  have hnil := startsFinal_nil hU
  have hq : SkipsSpaces q := by
    refine ⟨?_, fun l => ?_⟩
    · have hstrip : strip [] = [] := rfl
      show (if H.startsFinal (strip []) then some (strip []) else none) = none
      rw [hstrip, hnil]
      rfl
    · show (if H.startsFinal (strip (strip l)) then some (strip (strip l)) else none) = q l
      rw [strip_strip]
  have hfind : ∀ lines : List Text, (lines.map strip).find? H.startsFinal =
      (lines.filterMap q).head? := by
    intro lines
    induction lines with
    | nil => rfl
    | cons l lines ih =>
      have hcons : q l = if H.startsFinal (strip l) then some (strip l) else none := rfl
      rw [List.map_cons, List.find?_cons, List.filterMap_cons, hcons]
      cases H.startsFinal (strip l) with
      | true => rfl
      | false => exact ih
  have hall : ∀ p ∈ (H.setFinalLines t file).filterMap q, p = lit "FINAL," ++ t := by
    intro p hp
    obtain ⟨line, hline, hq⟩ := List.mem_filterMap.mp hp
    have hcond : (if H.startsFinal (strip line) then some (strip line) else none) = some p := hq
    split at hcond
    · next hstarts =>
      rw [← Option.some.inj hcond, (mem_setFinalLines ht hline).1]
      exact eq_final_of_startsFinal hline hstarts
    · cases hcond
  have hmem : lit "FINAL," ++ t ∈ (H.setFinalLines t file).filterMap q := by
    have hown : lit "FINAL," ++ t ∈ H.setFinalLines t file := final_mem_setFinalLines
    refine List.mem_filterMap.mpr ⟨_, hown, ?_⟩
    show (if H.startsFinal (strip (lit "FINAL," ++ t)) then some (strip (lit "FINAL," ++ t))
      else none) = _
    rw [if_pos (startsFinal_final hU ht), (mem_setFinalLines ht hown).1]
  have hhead : ((linesOf (readFile (joinLines (H.setFinalLines t file)))).filterMap q).head? =
      some (lit "FINAL," ++ t) := by
    rw [filterMap_linesOf hq, splitlines_submitted ht hq]
    obtain ⟨p, ps, hps⟩ := List.exists_cons_of_ne_nil (List.ne_nil_of_mem hmem)
    rw [hps, List.head?_cons, hall p (hps ▸ List.mem_cons_self ..)]
  have hcomma : ',' ∈ lit "FINAL," ++ t := List.mem_append_left _ (by decide)
  rw [Host.finalTarget, hfind, hhead, Option.bind_some, if_pos hcomma]
  show some (strip (after ',' (lit "FINAL" ++ ',' :: t))) = some t
  rw [after_append_cons (by decide), ht.stripped]

/-! ### The claim of the command -/

end Final

/-- **`setFinal_iff`** — the submitted text has the target for its default and the old rules exactly if
`str.splitlines` cuts the file into the lines that the router reads, and the first default is one that the
bot knows. -/
theorem setFinal_iff (hU : H.Uppers) (ht : PlainTarget t) {cfg : MihomoConfig}
    (hcfg : H.mihomoConfig E m (defaults.effective file) = .ok cfg) :
    H.SetsFinal E m defaults t file ↔ H.SameLines E m file ∧ H.KnowsDefault E m defaults t file := by
  have hold : ∀ {β : Type} {q : Text → Option β}, q [] = none →
      (pyLines (defaults.effective file)).filterMap q =
        (pyLines defaults.text).filterMap q ++ (pyLines file).filterMap q := fun hnil =>
    filterMap_pyLines_terminated hnil defaults.terminated file
  have hsubmits : H.opSetFinal t (readFile file) = some (joinLines (H.setFinalLines t file)) := by
    rw [opSetFinal_eq (startsFinal_nil hU), opSetRules, if_neg]
    intro hblank
    have hread : H.finalTarget (readFile (joinLines (H.setFinalLines t file))) = some t :=
      finalTarget_submitted hU ht
    rw [readFile, universalNewlines_submitted ht, hblank] at hread
    cases hread
  have hreads : (∀ raw ∈ pyLines (defaults.effective (joinLines (H.setFinalLines t file))),
      H.Reads raw) ↔ ∀ l ∈ splitlines file, H.Reads l := by
    have haccepted := reads_iff.mp (reads_of_mihomoConfig hcfg)
    rw [hold rfl] at haccepted
    rw [reads_iff, filterMap_submitted ht rfl, (List.append_eq_nil_iff.mp haccepted).1,
      List.nil_append, filterMap_setFinalLines_of_final hU skipsSpaces_refused ht
        fun raw => refused_of_isFinal, ← reads_iff]
  have hdefault : (matchTargets (H.rulesOf E m defaults
      (joinLines (H.setFinalLines t file)))).head? = some (H.resolveTarget E m t) ↔
        H.KnowsDefault E m defaults t file := by
    rw [matchTargets_rulesOf, filterMap_submitted ht rfl, List.head?_append]
    cases hbuiltin : ((pyLines defaults.text).filterMap (H.finalOf E m)).head? with
    | none =>
      rw [Option.none_or, head_finals_iff hU ht]
      constructor
      · intro hown
        exact ⟨by simp [hbuiltin], fun _ => hown⟩
      · exact fun hknown => hknown.own hbuiltin
    | some target =>
      rw [Option.some_or]
      constructor
      · intro hfirst
        refine ⟨fun target' htarget' => ?_, by simp [hbuiltin]⟩
        rw [hbuiltin, hfirst] at htarget'
        exact (Option.some.inj htarget').symm
      · exact fun hknown => congrArg some (hknown.builtin target hbuiltin)
  have hrules : (H.rulesOf E m defaults (joinLines (H.setFinalLines t file))).filter
      (·.cond.isSome) = (H.rulesOf E m defaults file).filter (·.cond.isSome) ↔
        (splitlines file).filterMap (H.ruleOf E m) = (pyLines file).filterMap (H.ruleOf E m) := by
    rw [filter_rulesOf, filter_rulesOf, filterMap_submitted ht rfl, hold rfl,
      filterMap_setFinalLines_of_final hU skipsSpaces_ruleOf ht fun raw => ruleOf_of_isFinal]
    exact List.append_right_inj _
  constructor
  · rintro ⟨text, htext, htaken, hfirst, hsame, -⟩
    obtain rfl := Option.some.inj (hsubmits.symm.trans htext)
    exact ⟨⟨hreads.mp htaken, hrules.mp hsame⟩, hdefault.mp hfirst⟩
  · rintro ⟨hlines, hknown⟩
    have hfirst := hdefault.mpr hknown
    exact ⟨_, hsubmits, hreads.mpr hlines.reads, hfirst, hrules.mpr hlines.rules, t,
      finalTarget_submitted hU ht, hfirst⟩

/-- Where lines end at newlines and carriage returns only, both cut the file alike. -/
theorem sameLines_of_newlines {cfg : MihomoConfig}
    (hcfg : H.mihomoConfig E m (defaults.effective file) = .ok cfg)
    (h : ∀ c ∈ file, isLineBreak c = true → c = '\n' ∨ c = '\r') : H.SameLines E m file := by
  have hcut := splitlines_eq_pyLines h
  have haccepted := reads_iff.mp (reads_of_mihomoConfig hcfg)
  rw [DefaultRules.effective, filterMap_pyLines_terminated rfl defaults.terminated,
    List.append_eq_nil_iff] at haccepted
  exact ⟨by rw [hcut]; exact reads_iff.mpr haccepted.2, by rw [hcut]⟩

end SetFinal

/-! ## A default with a blank before its comma -/

theorem uppers_plainHost : plainHost.Uppers where
  append a b := List.map_append
  capital := plainImporter.upper_eq_self
  space c h := by
    rcases toUpper_eq_self_or c with hself | hsmall
    · exact congrArg (fun d => [d]) hself
    · simp only [isSpace, Bool.or_eq_true, Bool.and_eq_true, decide_eq_true_eq, beq_iff_eq] at h
      omega
  comma c h := by
    have hupper : c.toUpper = ',' := (List.mem_singleton.mp h).symm
    unfold Char.toUpper at hupper
    split at hupper
    · next hsmall =>
      have hval := congrArg Char.val hupper
      grind
    · exact hupper

theorem setFinal_plain :
    plainHost.SetsFinal usExit [] noDefaults (lit "direct") (lit "DOMAIN,x.com,us\nfinal,us\n") ↔
      plainHost.SameLines usExit [] (lit "DOMAIN,x.com,us\nfinal,us\n") ∧
        plainHost.KnowsDefault usExit [] noDefaults (lit "direct")
          (lit "DOMAIN,x.com,us\nfinal,us\n") := by
  have hcfg : plainHost.mihomoConfig usExit [] (noDefaults.effective (lit "DOMAIN,x.com,us\nfinal,us\n")) =
    .ok ⟨[xToUs, ⟨none, .exit (lit "us")⟩], [], [lit "us"]⟩ := by rfl
  exact setFinal_iff uppers_plainHost ⟨by decide, by decide, List.all_iff_forall_prop.mp (by decide)⟩
    hcfg

/-- With a blank before its comma, the old default stays in front of the new one. -/
theorem blank_hides_final :
    ¬ ∀ (H : Host) (E : Exits) (m : PolicyMap) (defaults : DefaultRules) (t file : Text)
        (cfg : MihomoConfig), H.Uppers → PlainTarget t →
      H.mihomoConfig E m (defaults.effective file) = .ok cfg → H.SetsFinal E m defaults t file := by
  intro hclaim
  have hcfg : plainHost.mihomoConfig usExit [] (noDefaults.effective (lit "FINAL , us\n")) =
    .ok ⟨[⟨none, .exit (lit "us")⟩], [], [lit "us"]⟩ := by rfl
  obtain ⟨text, htext, -, hfirst, -⟩ := hclaim plainHost usExit [] noDefaults (lit "direct")
    (lit "FINAL , us\n") _ uppers_plainHost
    ⟨by decide, by decide, List.all_iff_forall_prop.mp (by decide)⟩ hcfg
  have hsubmits : plainHost.opSetFinal (lit "direct") (readFile (lit "FINAL , us\n")) =
    some (lit "FINAL , us\nFINAL,direct\n") := by decide
  obtain rfl := Option.some.inj (hsubmits.symm.trans htext)
  have hold : (matchTargets (plainHost.rulesOf usExit [] noDefaults
      (lit "FINAL , us\nFINAL,direct\n"))).head? = some (.exit (lit "us")) := by decide
  rw [hold] at hfirst
  exact absurd hfirst (by decide)

end ProxyGateway.Smart
