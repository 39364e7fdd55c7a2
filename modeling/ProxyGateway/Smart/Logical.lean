/-
# ProxyGateway.Smart.Logical — what a logical rule of a list may turn into

The router knows no conjunctions.  `rules-import.py` drops `AND` and `NOT`, and takes the members of an
`OR` apart; a member taken from inside an `AND` would send traffic where the list never sent it.  Which
texts are members is decided by two loops that count parentheses, `closing` and `topParens`.

`Balanced` and `TopMember` say what the loops should find, with no counter: a text whose parentheses
match, and a parenthesised piece of it with balanced text on either side.  `Importer.Source` is the
reading of one line that the importer may act on.  `importFile_sound` says that every rule it emits
has a source, with the type as the router writes it.
-/
import ProxyGateway.Smart.Import

namespace ProxyGateway.Smart

open ProxyGateway.Lang

/-! ## Balanced text -/

/-- **`Balanced t`** — every parenthesis of `t` is matched in it. -/
inductive Balanced : Text → Prop where
  | nil : Balanced []
  | char {c : Char} {t : Text} (hopen : c ≠ '(') (hclose : c ≠ ')') (ht : Balanced t) :
      Balanced (c :: t)
  | group {m t : Text} (hm : Balanced m) (ht : Balanced t) : Balanced ('(' :: (m ++ ')' :: t))

/-- **`TopMember group m`** — `m` stands in parentheses that are inside no others of `group`. -/
def TopMember (group m : Text) : Prop :=
  ∃ a b, Balanced a ∧ Balanced m ∧ Balanced b ∧ group = a ++ '(' :: (m ++ ')' :: b)

/-! ## The two loops -/

/-- `closing` ends at the parenthesis that matches; with more of them open it goes on behind it. -/
theorem closing_split {t : Text} {j n e : Nat} (h : closing j (n + 1) t = some e) :
    ∃ g post, t = g ++ ')' :: post ∧ Balanced g ∧
      if n = 0 then e = j + g.length else closing (j + g.length + 1) n post = some e := by
  -- the text behind an inner group is shorter, but not the tail of the text
  induction hlen : t.length using Nat.strongRecOn generalizing t j n with
  | ind len ih =>
    cases t with
    | nil => nomatch h
    | cons c t =>
      rw [List.length_cons] at hlen
      rw [closing] at h
      by_cases hopen : c = '('
      · subst hopen
        rw [if_pos rfl] at h
        obtain ⟨m, t₁, rfl, hm, h₁⟩ := ih t.length (by omega) (j := j + 1) (n := n + 1)
          (by push_cast; exact h) rfl
        rw [if_neg (Nat.succ_ne_zero n)] at h₁
        rw [List.length_append, List.length_cons] at hlen
        obtain ⟨g, post, rfl, hg, h₂⟩ := ih t₁.length (by omega) (n := n)
          (by push_cast at h₁; exact h₁) rfl
        refine ⟨'(' :: (m ++ ')' :: g), post, by simp, .group hm hg, ?_⟩
        have hend : j + ('(' :: (m ++ ')' :: g)).length = j + 1 + m.length + 1 + g.length := by
          simp only [List.length_cons, List.length_append]
          omega
        rw [hend]
        exact h₂
      · rw [if_neg hopen] at h
        by_cases hclose : c = ')'
        · subst hclose
          rw [if_pos rfl] at h
          refine ⟨[], t, rfl, .nil, ?_⟩
          by_cases hn : n = 0
          · subst hn
            rw [if_pos (by omega)] at h
            rw [if_pos rfl]
            exact (Option.some.inj h).symm
          · rw [if_neg (by omega)] at h
            rw [if_neg hn]
            simpa using h
        · rw [if_neg hclose] at h
          obtain ⟨g, post, rfl, hg, h₁⟩ := ih t.length (by omega) h rfl
          refine ⟨c :: g, post, rfl, .char hopen hclose hg, ?_⟩
          rw [List.length_cons, ← Nat.add_assoc, Nat.add_right_comm j]
          exact h₁

/-- The two slices at a group: the text between its parentheses, and the text behind it. -/
theorem slices_at_group (pre g t : Text) :
    ((pre ++ '(' :: (g ++ ')' :: t)).drop (pre.length + 1)).take
        (pre.length + 1 + g.length - (pre.length + 1)) = g ∧
      (pre ++ '(' :: (g ++ ')' :: t)).drop (pre.length + 1 + g.length + 1) = t := by
  constructor
  · have hdrop : (pre ++ '(' :: (g ++ ')' :: t)).drop (pre.length + 1) = g ++ ')' :: t := by
      rw [← List.singleton_append, ← List.append_assoc]
      exact List.drop_left' (by simp)
    rw [hdrop, Nat.add_sub_cancel_left, List.take_left]
  · rw [← List.singleton_append, ← List.append_assoc, ← List.append_assoc,
      ← List.singleton_append (l := t), ← List.append_assoc]
    exact List.drop_left' (by simp; omega)

/-- Inside a group `topParens` only counts. -/
theorem topParens_inside {s t : Text} (ht : Balanced t) :
    ∀ (r : Text) (i k n : Nat), topParens s i (n + 1) (some k) (t ++ r) =
      topParens s (i + t.length) (n + 1) (some k) r := by
  induction ht with
  | nil => exact fun _ _ _ _ => rfl
  | char hopen hclose _ ih =>
    intro r i k n
    rw [List.cons_append, topParens, if_neg hopen, if_neg hclose, ih, List.length_cons]
    congr 1
    omega
  | @group m t _ _ ihm iht =>
    intro r i k n
    have hdepth : ((n : Int) + 1 + 1 - 1) = n + 1 := by omega
    rw [List.cons_append, topParens, if_pos rfl, if_neg (by omega), List.append_assoc]
    have hinner := ihm ((')' :: t) ++ r) (i + 1) k (n + 1)
    push_cast at hinner
    rw [hinner, List.cons_append, topParens, if_neg (by decide), if_pos rfl]
    simp only [hdepth]
    rw [if_neg (by omega), iht]
    congr 1
    simp only [List.length_cons, List.length_append]
    omega

/-- Outside all groups a group is one member, and the loop goes on behind it. -/
theorem topParens_group {s pre g t : Text} (hg : Balanced g)
    (hs : s = pre ++ '(' :: (g ++ ')' :: t)) :
    topParens s pre.length 0 none ('(' :: (g ++ ')' :: t)) =
      g :: topParens s (pre ++ '(' :: (g ++ [')'])).length 0 none t := by
  have hin : topParens s (pre.length + 1) (0 + 1) (some (pre.length + 1)) (g ++ ')' :: t) =
      topParens s (pre.length + 1 + g.length) (0 + 1) (some (pre.length + 1)) (')' :: t) :=
    topParens_inside hg (')' :: t) (pre.length + 1) (pre.length + 1) 0
  have hpiece : (s.drop (pre.length + 1)).take (pre.length + 1 + g.length - (pre.length + 1)) = g :=
    hs ▸ (slices_at_group pre g t).1
  have hlen : pre.length + 1 + g.length + 1 = (pre ++ '(' :: (g ++ [')'])).length := by
    simp only [List.length_append, List.length_cons, List.length_nil]
    omega
  rw [topParens, if_pos rfl, if_pos rfl, hin, topParens, if_neg (by decide), if_pos rfl]
  rw [if_pos (by omega), hpiece, hlen]
  rfl

/-- Outside all groups `topParens` collects the top members. -/
theorem topParens_outside {t : Text} (ht : Balanced t) :
    ∀ {s pre m : Text}, s = pre ++ t → m ∈ topParens s pre.length 0 none t → TopMember t m := by
  induction ht with
  | nil =>
    intro s pre m _ hm
    nomatch hm
  | @char c t hopen hclose ht ih =>
    intro s pre m hs hm
    rw [topParens, if_neg hopen, if_neg hclose] at hm
    have hlen : pre.length + 1 = (pre ++ [c]).length := by rw [List.length_append]; rfl
    rw [hlen] at hm
    obtain ⟨a, b, ha, hbal, hb, rfl⟩ := ih (by rw [hs, List.append_assoc]; rfl) hm
    exact ⟨c :: a, b, .char hopen hclose ha, hbal, hb, rfl⟩
  | @group g t hg ht _ ih =>
    intro s pre m hs hm
    rw [topParens_group hg hs] at hm
    rcases List.mem_cons.mp hm with rfl | hm
    · exact ⟨[], t, .nil, hg, ht, rfl⟩
    · obtain ⟨a, b, ha, hbal, hb, rfl⟩ := ih (by rw [hs]; simp) hm
      exact ⟨'(' :: (g ++ ')' :: a), b, .group hg ha, hbal, hb, by simp⟩

theorem splitTopParens_topMember {group m : Text} (hgroup : Balanced group)
    (hm : m ∈ splitTopParens group) : TopMember group m :=
  topParens_outside hgroup (List.nil_append group).symm hm

/-- Where `closing` ends, counted from the first parenthesis of a line: the text up to there is
balanced, and the two slices of `parse_logical` are the text between and the text behind. -/
theorem closing_line {line : Text} {e : Nat}
    (h : closing (before '(' line).length 0 (line.drop (before '(' line).length) = some e) :
    ∃ pre group post, line = pre ++ '(' :: (group ++ ')' :: post) ∧ '(' ∉ pre ∧ Balanced group ∧
      (line.drop ((before '(' line).length + 1)).take (e - ((before '(' line).length + 1)) = group ∧
      line.drop (e + 1) = post := by
  by_cases hparen : '(' ∈ line
  · obtain ⟨pre, rest, hline, hpre⟩ : ∃ pre rest, line = pre ++ '(' :: rest ∧ '(' ∉ pre :=
      List.eq_append_cons_of_mem hparen
    have hbefore : before '(' line = pre := by
      rw [hline, before_append_of_not_mem hpre]
      simp [before]
    have hdrop : line.drop pre.length = '(' :: rest := by
      rw [hline, List.drop_left]
    rw [hbefore, hdrop, closing, if_pos rfl] at h
    obtain ⟨group, post, rfl, hgroup, hend⟩ := closing_split (n := 0) h
    rw [if_pos rfl] at hend
    subst hend
    obtain ⟨hin, htail⟩ := slices_at_group pre group post
    rw [hbefore]
    exact ⟨pre, group, post, hline, hpre, hgroup, hline ▸ hin, hline ▸ htail⟩
  · have hbefore : before '(' line = line := by
      refine List.takeWhile_eq_self_iff.mpr fun c hc => bne_iff_ne.mpr ?_
      rintro rfl
      exact hparen hc
    rw [hbefore, List.drop_length] at h
    cases h

/-- **`parseLogical_balanced`** — the group of a logical rule is the balanced text in its first pair of
parentheses, and its policy is the first field behind it. -/
theorem parseLogical_balanced {line policy : Text} {members : List Text}
    (h : parseLogical line = some (members, some policy)) :
    ∃ pre group post, line = pre ++ '(' :: (group ++ ')' :: post) ∧ '(' ∉ pre ∧ Balanced group ∧
      members = splitTopParens group ∧
      (csvSplit (post.dropWhile (· = ','))).head? = some policy := by
  unfold parseLogical at h
  simp only at h
  split at h
  · nomatch h
  split at h
  · nomatch h
  · next e he =>
    obtain ⟨hmembers, hpolicy⟩ := Prod.mk.inj (Option.some.inj h)
    obtain ⟨pre, group, post, hline, hpre, hgroup, hin, htail⟩ := closing_line he
    rw [hin] at hmembers
    rw [htail] at hpolicy
    refine ⟨pre, group, post, hline, hpre, hgroup, hmembers.symm, ?_⟩
    split at hpolicy
    · nomatch hpolicy
    · exact hpolicy

/-! ## The source of a rule -/

/-- Without double quotes the fields are what stands between the commas. -/
theorem csvLoop_of_unquoted {s : Text} (h : '"' ∉ s) (cur : Text) :
    csvLoop false cur s = (s.splitOn ',').modifyHead (cur ++ ·) := by
  induction s generalizing cur with
  | nil => simp [csvLoop, List.splitOn_nil]
  | cons c s ih =>
    obtain ⟨hc, hs⟩ := List.ne_and_not_mem_of_not_mem_cons h
    rw [csvLoop, if_neg (Ne.symm hc), List.splitOn_cons_eq_if_modifyHead]
    obtain ⟨first, rest, hsplit⟩ := List.exists_cons_of_ne_nil (List.splitOn_ne_nil ',' s)
    by_cases hcomma : c = ','
    · subst hcomma
      rw [if_pos ⟨rfl, rfl⟩, ih hs, if_pos (by simp), hsplit]
      simp
    · rw [if_neg (by simp [hcomma]), ih hs, if_neg (by simpa using hcomma), hsplit]
      simp

theorem csvSplit_of_unquoted {s : Text} (h : '"' ∉ s) : csvSplit s = fields s := by
  rw [csvSplit, csvLoop_of_unquoted h, fields]
  congr 1
  obtain ⟨first, rest, hsplit⟩ := List.exists_cons_of_ne_nil (List.splitOn_ne_nil ',' s)
  rw [hsplit]
  rfl

section Source

variable (I : Importer)

/-- **`Source line m`** — what a line says: a plain rule with its type, its value and the first field
behind it that is no modifier, or an `OR` with a top member that has the type and the value between
its commas, and the first field behind the group. -/
inductive Importer.Source (line : Text) : Matcher → Prop where
  | plain {head value policy : Text} {rest : List Text} (htype : I.typeOf line ∈ keepTypes)
      (hfields : csvSplit line = head :: value :: rest)
      (hpolicy : (rest.filter fun x => !isModifier (stripQuotes (strip x))).head? = some policy) :
      Source line ⟨I.typeOf line, value, policy⟩
  | member {pre group post member head value policy : Text} {rest : List Text}
      (htype : I.typeOf line = lit "OR") (hline : line = pre ++ '(' :: (group ++ ')' :: post))
      (hpre : '(' ∉ pre) (hgroup : Balanced group) (hmember : TopMember group member)
      (hfields : fields member = head :: value :: rest) (hkeep : I.upper head ∈ keepTypes)
      (hpolicy : (csvSplit (post.dropWhile (· = ','))).head? = some policy) :
      Source line ⟨I.upper head, value, policy⟩

/-- **`UnquotedGroups file`** — the parenthesised groups of the lines have no double quotes in them. -/
def UnquotedGroups (file : Text) : Prop :=
  ∀ raw ∈ pyLines file, ∀ pre group post,
    strip raw = pre ++ '(' :: (group ++ ')' :: post) → Balanced group → '"' ∉ group

/-- The line that goes out for a source, as the router writes it. -/
def Importer.line (m : Matcher) : Text :=
  gatewayType m.typ ++ ',' :: (m.value ++ ',' :: I.categoryOf m.category)

variable {I}

/-- Everything a line passes to `emit` has its source in the line. -/
theorem source_of_readLine {raw : Text} {out : Imported} {m : Matcher}
    (hquotes : ∀ pre group post, strip raw = pre ++ '(' :: (group ++ ')' :: post) →
      Balanced group → '"' ∉ group)
    (h : I.readLine raw = some out) (hm : m ∈ out.matchers) : I.Source (strip raw) m := by
  rcases readLine_cases h with rfl | ⟨members, policy, hor, -, hlogical, rfl⟩ |
    ⟨head, value, rest, policy, hkeep, hfields, hpolicy, rfl⟩ | ⟨-, rfl⟩
  · nomatch hm
  · obtain ⟨pre, group, post, hline, hpre, hgroup, rfl, hpolicy⟩ := parseLogical_balanced hlogical
    obtain ⟨member, hmember, hm⟩ := List.mem_filterMap.mp hm
    have htop := splitTopParens_topMember hgroup hmember
    have hunquoted : '"' ∉ member := by
      intro hq
      refine hquotes pre group post hline hgroup ?_
      obtain ⟨a, b, -, -, -, rfl⟩ := htop
      simp [hq]
    unfold Importer.member at hm
    rw [csvSplit_of_unquoted hunquoted] at hm
    split at hm
    · next head value rest hfields =>
      split at hm
      · next hkeep =>
        cases hm
        exact .member hor hline hpre hgroup htop hfields hkeep hpolicy
      · nomatch hm
    · nomatch hm
  · obtain rfl := List.mem_singleton.mp hm
    exact .plain hkeep hfields hpolicy
  · nomatch hm

theorem Importer.Source.keeps {line : Text} {m : Matcher} (h : I.Source line m) :
    m.typ ∈ keepTypes := by
  cases h with
  | plain htype => exact htype
  | member _ _ _ _ _ _ hkeep => exact hkeep

/-- `AND` and `NOT` lines add nothing. -/
theorem readLine_of_and_not {raw : Text}
    (h : I.typeOf (strip raw) ∈ [lit "AND", lit "NOT"]) : I.readLine raw = some .nothing := by
  unfold Importer.readLine
  simp only
  split
  · rfl
  rcases List.mem_cons.mp h with hand | hnot
  · rw [if_pos hand]
  · have htype : I.typeOf (strip raw) = lit "NOT" := List.mem_singleton.mp hnot
    rw [htype, if_neg (by decide), if_neg (by decide), if_neg (by decide)]
    split
    · rfl
    · rw [if_pos (by decide)]

/-- A member that is itself logical adds nothing. -/
theorem member_of_logical {policy m head : Text} {rest : List Text}
    (hhead : csvSplit m = head :: rest)
    (hlogical : I.upper head ∈ [lit "AND", lit "OR", lit "NOT"]) : I.member policy m = none := by
  have hkeep : I.upper head ∉ keepTypes := by
    generalize I.upper head = t at hlogical
    revert t
    decide
  unfold Importer.member
  rw [hhead]
  cases rest with
  | nil => rfl
  | cons value rest => exact if_neg hkeep

/-- **`importFile_sound`** — every rule that is emitted, `FINAL` apart, is the rule of one source line:
a plain rule, or a top member of an `OR` line, under the category of that line's policy; lines that
are `AND` or `NOT`, and members that are logical themselves, emit nothing. -/
theorem importFile_sound (I : Importer) {file : Text} {out : List Imported}
    (hquotes : UnquotedGroups file) (hread : I.readFile file = some out) :
    (∀ r ∈ I.outLines out, lit "FINAL," <+: r ∨
        ∃ raw ∈ pyLines file, ∃ m, I.Source (strip raw) m ∧ r = I.line m) ∧
      (∀ raw ∈ pyLines file, I.typeOf (strip raw) ∈ [lit "AND", lit "NOT"] →
        I.readLine raw = some .nothing) ∧
      ∀ policy m head rest, csvSplit m = head :: rest →
        I.upper head ∈ [lit "AND", lit "OR", lit "NOT"] → I.member policy m = none := by
  refine ⟨fun r hr => ?_, fun raw _ htype => readLine_of_and_not htype,
    fun policy m head rest hhead hlogical => member_of_logical hhead hlogical⟩
  rcases List.mem_append.mp hr with hrule | hfinal
  · obtain ⟨m, hm, rfl⟩ := List.mem_map.mp hrule
    obtain ⟨o, ho, hm⟩ := List.mem_flatMap.mp hm
    obtain ⟨raw, hmem, hraw⟩ := exists_line_of_mem hread ho
    have hsource := source_of_readLine (hquotes raw hmem) hraw hm
    refine Or.inr ⟨raw, hmem, m, hsource, ?_⟩
    rw [Importer.emit, I.upper_eq_self _ (keepTypes_plain m.typ hsource.keeps).1]
    rfl
  · rw [Option.mem_toList, Option.map_eq_some_iff] at hfinal
    obtain ⟨category, -, rfl⟩ := hfinal
    exact Or.inl (List.prefix_append _ _)

theorem unquotedGroups_of_not_mem {file : Text} (h : '"' ∉ file) : UnquotedGroups file := by
  intro raw hraw pre group post hline _ hq
  refine h ?_
  have hmem : '"' ∈ strip raw := by
    rw [hline]
    simp [hq]
  exact mem_of_mem_universalNewlines (by decide)
    (mem_of_mem_splitOn hraw (mem_of_mem_strip hmem)).1

/-- An `OR` with a member inside a conjunction: only the other member goes out. -/
theorem importFile_sound_nested :
    plainImporter.importFile
        (lit "OR,((AND,((DOMAIN,a.com),(DOMAIN,b.com))),(DOMAIN,c.com)),Proxy\n") =
      some (lit "DOMAIN,c.com,Proxy\n") ∧
    ∃ raw ∈ pyLines (lit "OR,((AND,((DOMAIN,a.com),(DOMAIN,b.com))),(DOMAIN,c.com)),Proxy\n"),
      ∃ m, plainImporter.Source (strip raw) m ∧ lit "DOMAIN,c.com,Proxy" = plainImporter.line m := by
  refine ⟨by decide, ?_⟩
  obtain ⟨out, hread, hout⟩ : ∃ out, plainImporter.readFile
      (lit "OR,((AND,((DOMAIN,a.com),(DOMAIN,b.com))),(DOMAIN,c.com)),Proxy\n") = some out ∧
      lit "DOMAIN,c.com,Proxy" ∈ plainImporter.outLines out := by
    refine ⟨[.rules [⟨lit "DOMAIN", lit "c.com", lit "Proxy"⟩], .nothing], ?_, ?_⟩
    · decide
    · decide
  have hsound := (importFile_sound plainImporter
    (unquotedGroups_of_not_mem (by decide)) hread).1 _ hout
  exact hsound.resolve_left (by decide)

/-- The type is not always the one of the source: `IP-CIDR6` goes out as `IP-CIDR`. -/
theorem importFile_changes_type :
    ¬ ∀ (I : Importer) (file : Text) (out : List Imported), UnquotedGroups file →
      I.readFile file = some out → ∀ r ∈ I.outLines out, lit "FINAL," <+: r ∨
        ∃ raw ∈ pyLines file, ∃ m, I.Source (strip raw) m ∧
          r = m.typ ++ ',' :: (m.value ++ ',' :: I.categoryOf m.category) := by
  intro hclaim
  have hlines : pyLines (lit "IP-CIDR6,2001:db8::/32,Proxy\n") =
      [lit "IP-CIDR6,2001:db8::/32,Proxy", []] := by decide
  have hfound := hclaim plainImporter (lit "IP-CIDR6,2001:db8::/32,Proxy\n")
    [.rules [⟨lit "IP-CIDR6", lit "2001:db8::/32", lit "Proxy"⟩], .nothing]
    (unquotedGroups_of_not_mem (by decide)) (by decide)
    (lit "IP-CIDR,2001:db8::/32,Proxy") (by decide)
  rcases hfound with hfinal | ⟨raw, hraw, m, hsource, hr⟩
  · revert hfinal
    decide
  · have htype : m.typ = lit "IP-CIDR" := by
      have hbefore : before ',' (m.typ ++ ',' :: (m.value ++ ',' ::
          plainImporter.categoryOf m.category)) = m.typ := by
        have hcomma : ∀ t ∈ keepTypes, ',' ∉ t := by decide
        rw [before_append_of_not_mem (hcomma m.typ hsource.keeps)]
        simp [before]
      rw [← hbefore, ← hr]
      decide
    -- neither line has that type
    have hnot : ∀ raw ∈ [lit "IP-CIDR6,2001:db8::/32,Proxy", []],
        plainImporter.typeOf (strip raw) ≠ lit "IP-CIDR" ∧
          plainImporter.typeOf (strip raw) ≠ lit "OR" := by decide
    rw [hlines] at hraw
    obtain ⟨hplain, hor⟩ := hnot raw hraw
    cases hsource with
    | plain => exact hplain htype
    | member hor' => exact hor hor'

end Source

end ProxyGateway.Smart
