/-
# ProxyGateway.Smart.LogicalSyntax — `parse_logical` read as the inverse of a writer

`ProxyGateway.Smart.Logical` says where the members of a logical rule come from.  Here the rule is
written first: members in parentheses with commas and blanks between them, the whole in parentheses
behind `OR`, the policy last.  `parse_logical` gives back exactly the members and the policy.

What a member may contain is said with a counter, as the two loops count it: the parentheses of
`DepthBalanced` text come out even, and no piece from the front closes one that it has not opened.
`balanced_iff_depth` is the bridge to the texts built by nesting, over which the inductions run.
-/
import ProxyGateway.Smart.Logical

namespace ProxyGateway.Smart

open ProxyGateway.Lang

/-! ## Counting parentheses -/

/-- The parentheses that `t` opens, less those it closes. -/
def depth (t : Text) : Int := (t.count '(' : Int) - t.count ')'

/-- **`DepthBalanced t`** — `t` closes all it opens, and nothing it has not opened. -/
structure DepthBalanced (t : Text) : Prop where
  even : depth t = 0
  front : ∀ p, p <+: t → 0 ≤ depth p

@[simp] theorem depth_nil : depth [] = 0 := rfl

@[simp] theorem depth_append (s t : Text) : depth (s ++ t) = depth s + depth t := by
  simp only [depth, List.count_append]
  omega

@[simp] theorem depth_open (t : Text) : depth ('(' :: t) = depth t + 1 := by
  simp [depth]
  omega

@[simp] theorem depth_close (t : Text) : depth (')' :: t) = depth t - 1 := by
  simp [depth]
  omega

theorem depth_other {c : Char} (hopen : c ≠ '(') (hclose : c ≠ ')') (t : Text) :
    depth (c :: t) = depth t := by
  simp [depth, hopen, hclose]

theorem Balanced.depth_eq_zero {t : Text} (h : Balanced t) : depth t = 0 := by
  induction h with
  | nil => rfl
  | char hopen hclose _ ih => rw [depth_other hopen hclose, ih]
  | group _ _ ihm iht =>
    rw [depth_open, depth_append, depth_close, ihm, iht]
    rfl

theorem Balanced.depth_front {t : Text} (h : Balanced t) : ∀ p, p <+: t → 0 ≤ depth p := by
  induction h with
  | nil =>
    intro p hp
    rw [List.prefix_nil.mp hp]
    exact Int.le_refl 0
  | char hopen hclose _ ih =>
    intro p hp
    rcases List.prefix_cons_iff.mp hp with rfl | ⟨q, rfl, hq⟩
    · exact Int.le_refl 0
    · rw [depth_other hopen hclose]
      exact ih q hq
  | @group m t hm _ ihm iht =>
    intro p hp
    rcases List.prefix_cons_iff.mp hp with rfl | ⟨q, rfl, hq⟩
    · exact Int.le_refl 0
    rw [depth_open]
    -- the piece ends inside the group, or it holds the whole group
    rcases List.prefix_or_prefix_of_prefix hq (List.prefix_append m _) with hin | ⟨q, rfl⟩
    · have := ihm q hin
      omega
    · rcases List.prefix_cons_iff.mp ((List.prefix_append_right_inj m).mp hq) with
        rfl | ⟨r, rfl, hr⟩
      · rw [List.append_nil, hm.depth_eq_zero]
        decide
      · have := iht r hr
        rw [depth_append, depth_close, hm.depth_eq_zero]
        omega

theorem Balanced.append {s t : Text} (hs : Balanced s) (ht : Balanced t) : Balanced (s ++ t) := by
  induction hs with
  | nil => exact ht
  | char hopen hclose _ ih => exact .char hopen hclose ih
  | group hm _ _ ih =>
    rw [List.cons_append, List.append_assoc]
    exact .group hm ih

/-- **`Closes n t`** — balanced text, `n` times cut by a parenthesis that closes one opened before. -/
def Closes : Nat → Text → Prop
  | 0, t => Balanced t
  | n + 1, t => ∃ m r, t = m ++ ')' :: r ∧ Balanced m ∧ Closes n r

theorem Closes.append {a t : Text} {n : Nat} (ha : Balanced a) (ht : Closes n t) :
    Closes n (a ++ t) := by
  cases n with
  | zero => exact ha.append ht
  | succ n =>
    obtain ⟨m, r, rfl, hm, hr⟩ := ht
    exact ⟨a ++ m, r, (List.append_assoc ..).symm, ha.append hm, hr⟩

/-- With `n` parentheses open, text that ends with none open and never goes below closes them one by
one. -/
theorem closes_of_depth {t : Text} {n : Nat} (heven : depth t + n = 0)
    (hfront : ∀ p, p <+: t → 0 ≤ depth p + n) : Closes n t := by
  induction t generalizing n with
  | nil =>
    obtain rfl : n = 0 := by simpa using heven
    exact .nil
  | cons c t ih =>
    -- what is known of `c :: t` from the front is known of `t`, with the depth that `c` leaves
    have hrest : ∀ k : Nat, (∀ p, depth (c :: p) + n = depth p + k) → Closes k t := fun k hk =>
      ih (by rw [← hk]; exact heven) fun p hp => by
        rw [← hk]
        exact hfront _ (List.cons_prefix_cons.mpr ⟨rfl, hp⟩)
    by_cases hopen : c = '('
    · subst hopen
      obtain ⟨m, r, rfl, hm, hr⟩ := hrest (n + 1) fun p => by
        rw [depth_open]
        omega
      have hgroup : Closes n (('(' :: (m ++ [')'])) ++ r) := hr.append (.group hm .nil)
      simpa using hgroup
    · by_cases hclose : c = ')'
      · subst hclose
        cases n with
        | zero => simpa using hfront [')'] (List.cons_prefix_cons.mpr ⟨rfl, List.nil_prefix⟩)
        | succ n =>
          refine ⟨[], t, rfl, .nil, hrest n fun p => ?_⟩
          rw [depth_close]
          omega
      · have hchar : Closes n ([c] ++ t) := Closes.append (.char hopen hclose .nil)
          (hrest n fun p => by rw [depth_other hopen hclose])
        exact hchar

/-- **`balanced_iff_depth`** — the texts built by nesting are those that the counter accepts. -/
theorem balanced_iff_depth {t : Text} : Balanced t ↔ DepthBalanced t :=
  ⟨fun h => ⟨h.depth_eq_zero, h.depth_front⟩, fun h =>
    closes_of_depth (n := 0) (by simpa using h.even) (by simpa using h.front)⟩

/-! ## The rule as it is written -/

/-- The members of a rule in their parentheses, with `seps` between them. -/
def membersText : List Text → List Text → Text
  | [], _ => []
  | m :: ms, seps => '(' :: (m ++ ')' :: (seps.headD [] ++ membersText ms seps.tail))

/-- **`Separator sep`** — nothing but commas and blanks. -/
def Separator (sep : Text) : Prop := ∀ c ∈ sep, c = ',' ∨ c = ' '

theorem Separator.balanced {sep : Text} (h : Separator sep) : Balanced sep := by
  induction sep with
  | nil => exact .nil
  | cons c sep ih =>
    obtain ⟨hc, hsep⟩ := List.forall_mem_cons.mp h
    refine .char ?_ ?_ (ih hsep) <;> rcases hc with rfl | rfl <;> decide

theorem separator_head {seps : List Text} (h : ∀ sep ∈ seps, Separator sep) :
    Separator (seps.headD []) ∧ ∀ sep ∈ seps.tail, Separator sep := by
  cases seps with
  | nil => exact ⟨List.forall_mem_nil _, h⟩
  | cons sep seps => exact List.forall_mem_cons.mp h

/-- Between two members `topParens` finds nothing. -/
theorem topParens_separator {s pre sep t : Text} (h : Separator sep) :
    topParens s pre.length 0 none (sep ++ t) = topParens s (pre ++ sep).length 0 none t := by
  induction sep generalizing pre with
  | nil => simp
  | cons c sep ih =>
    obtain ⟨hc, hsep⟩ := List.forall_mem_cons.mp h
    have hopen : c ≠ '(' := by rcases hc with rfl | rfl <;> decide
    have hclose : c ≠ ')' := by rcases hc with rfl | rfl <;> decide
    have hlen : pre.length + 1 = (pre ++ [c]).length := by rw [List.length_append]; rfl
    rw [List.cons_append, topParens, if_neg hopen, if_neg hclose, hlen, ih hsep,
      List.append_assoc]
    rfl

theorem membersText_balanced {ms seps : List Text} (hms : ∀ m ∈ ms, Balanced m)
    (hseps : ∀ sep ∈ seps, Separator sep) : Balanced (membersText ms seps) := by
  induction ms generalizing seps with
  | nil => exact .nil
  | cons m ms ih =>
    obtain ⟨hm, hms⟩ := List.forall_mem_cons.mp hms
    obtain ⟨hsep, hseps⟩ := separator_head hseps
    exact .group hm (hsep.balanced.append (ih hms hseps))

/-- The loop of `split_top_parens`, from the first of the members still to come. -/
theorem topParens_membersText {s pre : Text} {ms seps : List Text} (hms : ∀ m ∈ ms, Balanced m)
    (hseps : ∀ sep ∈ seps, Separator sep) (hs : s = pre ++ membersText ms seps) :
    topParens s pre.length 0 none (membersText ms seps) = ms := by
  induction ms generalizing seps pre with
  | nil => rfl
  | cons m ms ih =>
    obtain ⟨hm, hms⟩ := List.forall_mem_cons.mp hms
    obtain ⟨hsep, hseps⟩ := separator_head hseps
    rw [membersText, topParens_group hm hs, topParens_separator hsep, ih hms hseps]
    rw [hs, membersText]
    simp

/-! ## Reading it back -/

/-- The group that `parse_logical` passes to `split_top_parens`. -/
def logicalGroup (line : Text) : Option Text :=
  let i := (before '(' line).length
  (closing i 0 (line.drop i)).map fun e => (line.drop (i + 1)).take (e - (i + 1))

theorem logicalGroup_balanced {line group : Text} (h : logicalGroup line = some group) :
    Balanced group := by
  obtain ⟨e, he, rfl⟩ := Option.map_eq_some_iff.mp h
  obtain ⟨_, group, _, -, -, hgroup, hin, -⟩ := closing_line he
  exact hin ▸ hgroup

/-- The members are those of the group, where there is one. -/
theorem parseLogical_members {line : Text} {members : List Text} {policy : Option Text}
    (h : parseLogical line = some (members, policy)) :
    logicalGroup line = none ∧ members = [] ∨
      ∃ group, logicalGroup line = some group ∧ members = splitTopParens group := by
  unfold parseLogical at h
  simp only at h
  split at h
  · nomatch h
  split at h
  · next he =>
    obtain ⟨rfl, -⟩ := Prod.mk.inj (Option.some.inj h)
    exact .inl ⟨by rw [logicalGroup, he]; rfl, rfl⟩
  · next e he =>
    obtain ⟨rfl, -⟩ := Prod.mk.inj (Option.some.inj h)
    exact .inr ⟨_, by rw [logicalGroup, he]; rfl, rfl⟩

/-- Inside a group `closing` only counts. -/
theorem closing_inside {t : Text} (ht : Balanced t) :
    ∀ (r : Text) (j n : Nat), closing j (n + 1) (t ++ r) = closing (j + t.length) (n + 1) r := by
  induction ht with
  | nil => exact fun _ _ _ => rfl
  | char hopen hclose _ ih =>
    intro r j n
    rw [List.cons_append, closing, if_neg hopen, if_neg hclose, ih, List.length_cons]
    congr 1
    omega
  | @group m t _ _ ihm iht =>
    intro r j n
    have hdepth : ((n : Int) + 1 + 1 - 1) = n + 1 := by omega
    have hinner := ihm ((')' :: t) ++ r) (j + 1) (n + 1)
    push_cast at hinner
    rw [List.cons_append, closing, if_pos rfl, List.append_assoc, hinner, List.cons_append,
      closing, if_neg (by decide), if_pos rfl, if_neg (by omega), hdepth, iht]
    congr 1
    simp only [List.length_cons, List.length_append]
    omega

/-- **`parseLogical_group`** — the group of `head(group)tail`, where `head` opens nothing: the policy is
the first field of `tail` without its leading commas. -/
theorem parseLogical_group {head group tail : Text} (hhead : '(' ∉ head) (hgroup : Balanced group) :
    parseLogical (head ++ '(' :: (group ++ ')' :: tail)) =
      some (splitTopParens group, if tail.dropWhile (· = ',') = [] then none
        else (csvSplit (tail.dropWhile (· = ','))).head?) := by
  have hbefore : before '(' (head ++ '(' :: (group ++ ')' :: tail)) = head := by
    rw [before_append_of_not_mem hhead]
    simp [before]
  have hclosing : closing head.length 0 ('(' :: (group ++ ')' :: tail)) =
      some (head.length + 1 + group.length) := by
    have hin : closing (head.length + 1) (0 + 1) (group ++ ')' :: tail) =
        closing (head.length + 1 + group.length) (0 + 1) (')' :: tail) :=
      closing_inside hgroup (')' :: tail) (head.length + 1) 0
    rw [closing, if_pos rfl, hin, closing, if_neg (by decide), if_pos rfl, if_pos (by decide)]
  obtain ⟨hin, htail⟩ := slices_at_group head group tail
  rw [parseLogical, if_neg (by simp)]
  simp only [hbefore, List.drop_left, hclosing, hin, htail]

/-- **`parseLogical_inverts_membersText`** — a rule written from members with balanced parentheses, with
commas and blanks between them, gives back the members and the policy; and whatever the line, the
group that is taken apart is balanced and never goes below. -/
theorem parseLogical_inverts_membersText :
    (∀ (ms seps : List Text) (p : Text), (∀ m ∈ ms, DepthBalanced m) →
      (∀ sep ∈ seps, Separator sep) → p ≠ [] → (∀ c ∈ p, c ∉ ['"', ',', '(', ')']) →
      parseLogical (lit "OR,(" ++ membersText ms seps ++ lit ")," ++ p) =
        some (ms, some (strip p))) ∧
    ∀ line members policy, parseLogical line = some (members, policy) →
      logicalGroup line = none ∧ members = [] ∨
        ∃ group, logicalGroup line = some group ∧ members = splitTopParens group ∧
          DepthBalanced group := by
  refine ⟨fun ms seps p hms hseps hp hplain => ?_, fun line members policy h => ?_⟩
  · have hmembers : ∀ m ∈ ms, Balanced m := fun m hm => balanced_iff_depth.mpr (hms m hm)
    have hquote : '"' ∉ p := fun hq => hplain _ hq (by decide)
    have hcomma : ',' ∉ p := fun hc => hplain _ hc (by decide)
    have hline : lit "OR,(" ++ membersText ms seps ++ lit ")," ++ p =
        lit "OR," ++ '(' :: (membersText ms seps ++ ')' :: ',' :: p) := by
      simp [lit]
    have hstart : (',' :: p).dropWhile (· = ',') = p := by
      rw [List.dropWhile_cons_of_pos (by decide)]
      refine List.dropWhile_eq_self_iff.mpr fun hpos => ?_
      have hne : p[0] ≠ ',' := fun heq => hcomma (heq ▸ List.getElem_mem hpos)
      simpa using hne
    have hsplit : splitTopParens (membersText ms seps) = ms :=
      @topParens_membersText _ [] _ _ hmembers hseps rfl
    rw [hline, parseLogical_group (by decide) (membersText_balanced hmembers hseps), hsplit, hstart,
      if_neg hp, csvSplit_of_unquoted hquote, fields, List.splitOn_eq_singleton hcomma]
    rfl
  · rcases parseLogical_members h with hnone | ⟨group, hgroup, hms⟩
    · exact .inl hnone
    · exact .inr ⟨group, hgroup, hms, balanced_iff_depth.mp (logicalGroup_balanced hgroup)⟩

end ProxyGateway.Smart
