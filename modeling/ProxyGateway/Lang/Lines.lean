/-
# ProxyGateway.Lang.Lines — one text, two readers with different ends of a line

The shell ends a line at a newline; `str.splitlines` also ends one at a carriage return, a form feed,
a few separators and two characters of Unicode, and what it returns is stripped as a rule.  Where one
program writes back what the other is going to read, the question is what a stripped piece of the one
is within a line of the other.

`Within v t` says that `v` is such a piece: in front of it stands a line break and spaces, or nothing
but spaces, and behind it a space or nothing.  It is transitive, holds of a stripped text and of every
piece (`within_strip`, `within_of_mem_splitOnP`), and a piece without newlines lies within a line
(`Within.exists_piece`).  Where a mark opens a comment, a piece that does not come out of the comment
starts before it (`Within.before`).
-/
import ProxyGateway.Lang.Text

namespace ProxyGateway.Lang

theorem isSpace_of_isLineBreak {c : Char} (h : isLineBreak c = true) : isSpace c = true := by
  simp only [isLineBreak, isSpace, Bool.or_eq_true, beq_iff_eq, Bool.and_eq_true,
    decide_eq_true_eq] at h ⊢
  omega

/-! ## Where a piece may start and end -/

/-- Spaces, with a line break in front of them unless they are all. -/
def Opens (x : Text) : Prop :=
  (∀ c ∈ x, isSpace c = true) ∨
    ∃ x₀ b sp, x = x₀ ++ b :: sp ∧ isLineBreak b = true ∧ ∀ c ∈ sp, isSpace c = true

def Closes (y : Text) : Prop := ∀ c ∈ y.head?, isSpace c = true

theorem opens_nil : Opens [] := .inl nofun

theorem closes_nil : Closes [] := nofun

theorem closes_of_spaces {y : Text} (h : ∀ c ∈ y, isSpace c = true) : Closes y :=
  fun c hc => h c (List.mem_of_mem_head? hc)

theorem Opens.append {x y : Text} (hx : Opens x) (hy : Opens y) : Opens (x ++ y) := by
  rcases hy with hy | ⟨y₀, b, sp, rfl, hb, hsp⟩
  · rcases hx with hx | ⟨x₀, b, sp, rfl, hb, hsp⟩
    · left
      intro c hc
      exact (List.mem_append.mp hc).elim (hx c) (hy c)
    · refine .inr ⟨x₀, b, sp ++ y, by simp, hb, ?_⟩
      intro c hc
      exact (List.mem_append.mp hc).elim (hsp c) (hy c)
  · exact .inr ⟨x ++ y₀, b, sp, by simp, hb, hsp⟩

theorem Opens.suffix {x y : Text} (h : Opens (x ++ y)) : Opens y := by
  rcases h with h | ⟨z, b, sp, hsplit, hb, hsp⟩
  · left
    intro c hc
    exact h c (List.mem_append_right x hc)
  · rcases List.append_eq_append_iff.mp hsplit with ⟨w, -, rfl⟩ | ⟨w, -, htail⟩
    · exact .inr ⟨w, b, sp, rfl, hb, hsp⟩
    · left
      intro c hc
      cases w with
      | nil =>
        obtain rfl : b :: sp = y := htail
        rcases List.mem_cons.mp hc with rfl | hc
        · exact isSpace_of_isLineBreak hb
        · exact hsp c hc
      | cons d w =>
        obtain ⟨rfl, rfl⟩ := List.cons.inj htail
        exact hsp c (List.mem_append_right w hc)

theorem Closes.append {x y : Text} (hx : Closes x) (hy : Closes y) : Closes (x ++ y) := by
  cases x with
  | nil => exact hy
  | cons c x => exact hx

theorem Closes.of_append {x y : Text} (h : Closes (x ++ y)) : Closes x := by
  cases x with
  | nil => exact closes_nil
  | cons c x => exact h

/-- What opens a piece ends in a space. -/
theorem Opens.getLast {x : Text} (h : Opens x) : ∀ c ∈ x.getLast?, isSpace c = true := by
  intro c hc
  rcases h with h | ⟨x₀, b, sp, rfl, hb, hsp⟩
  · exact h c (List.mem_of_getLast? hc)
  · have hmem : c ∈ b :: sp := by
      apply List.mem_of_getLast?
      simpa [List.getLast?_append] using hc
    rcases List.mem_cons.mp hmem with rfl | hmem
    · exact isSpace_of_isLineBreak hb
    · exact hsp c hmem

/-! ## A piece within a text -/

/-- **`Within`** — `v` is a piece of `t`, up to the spaces around it. -/
def Within (v t : Text) : Prop := ∃ x y, t = x ++ (v ++ y) ∧ Opens x ∧ Closes y

theorem Within.trans {u v t : Text} (hvu : Within v u) (hut : Within u t) : Within v t := by
  obtain ⟨x, y, rfl, hx, hy⟩ := hvu
  obtain ⟨x', y', rfl, hx', hy'⟩ := hut
  exact ⟨x' ++ x, y ++ y', by simp, hx'.append hx, hy.append hy'⟩

theorem within_strip (t : Text) : Within (strip t) t := by
  refine ⟨t.takeWhile isSpace, (t.dropWhile isSpace).rtakeWhile isSpace, ?_, .inl ?_, ?_⟩
  · rw [strip, List.rdropWhile_append_rtakeWhile, List.takeWhile_append_dropWhile]
  · exact fun c hc => List.mem_takeWhile_imp hc
  · exact closes_of_spaces fun c hc => List.mem_rtakeWhile_imp hc

section Pieces

variable {p : Char → Bool}

/-- The last break of a text. -/
theorem exists_last_break (p : Char → Bool) (t : Text) : (∀ c ∈ t, p c = false) ∨
    ∃ x b y, t = x ++ b :: y ∧ p b = true ∧ ∀ c ∈ y, p c = false := by
  induction t with
  | nil => exact .inl nofun
  | cons d t ih =>
    rcases ih with hno | ⟨x, b, y, rfl, hb, hy⟩
    · cases hd : p d with
      | false => exact .inl (List.forall_mem_cons.mpr ⟨hd, hno⟩)
      | true => exact .inr ⟨[], d, t, rfl, hd, hno⟩
    · exact .inr ⟨d :: x, b, y, rfl, hb, hy⟩

/-- The first break of a text. -/
theorem exists_first_break (p : Char → Bool) (t : Text) : (∀ c ∈ t, p c = false) ∨
    ∃ x b y, t = x ++ b :: y ∧ p b = true ∧ ∀ c ∈ x, p c = false := by
  induction t with
  | nil => exact .inl nofun
  | cons d t ih =>
    cases hd : p d with
    | true => exact .inr ⟨[], d, t, rfl, hd, nofun⟩
    | false =>
      rcases ih with hno | ⟨x, b, y, rfl, hb, hx⟩
      · exact .inl (List.forall_mem_cons.mpr ⟨hd, hno⟩)
      · exact .inr ⟨d :: x, b, y, rfl, hb, List.forall_mem_cons.mpr ⟨hd, hx⟩⟩

/-- What stands between two breaks is a piece. -/
theorem mem_splitOnP_of_append {x v y : Text} (hx : x = [] ∨ ∃ x' b, x = x' ++ [b] ∧ p b = true)
    (hv : ∀ c ∈ v, p c = false) (hy : y = [] ∨ ∃ b y', y = b :: y' ∧ p b = true) :
    v ∈ (x ++ (v ++ y)).splitOnP p := by
  have hstart : v ∈ (v ++ y).splitOnP p := by
    rcases hy with rfl | ⟨b, y', rfl, hb⟩
    · rw [List.append_nil, List.splitOnP_eq_singleton hv]
      exact List.mem_cons_self ..
    · rw [List.splitOnP_append_cons _ _ hb, List.splitOnP_eq_singleton hv]
      exact List.mem_cons_self ..
  rcases hx with rfl | ⟨x', b, rfl, hb⟩
  · exact hstart
  · rw [List.append_assoc, List.singleton_append, List.splitOnP_append_cons _ _ hb]
    exact List.mem_append_right _ hstart

/-- A piece has no breaks in it, and stands between two of them or at an end. -/
theorem exists_append_of_mem_splitOnP {t piece : Text} (h : piece ∈ t.splitOnP p) :
    ∃ x y, t = x ++ (piece ++ y) ∧ (x = [] ∨ ∃ x' b, x = x' ++ [b] ∧ p b = true) ∧
      (∀ c ∈ piece, p c = false) ∧ (y = [] ∨ ∃ b y', y = b :: y' ∧ p b = true) := by
  rcases exists_first_break p t with hno | ⟨first, b, rest, rfl, hb, hfirst⟩
  · rw [List.splitOnP_eq_singleton hno, List.mem_singleton] at h
    subst h
    exact ⟨[], [], by simp, .inl rfl, hno, .inl rfl⟩
  · rw [List.splitOnP_append_cons _ _ hb, List.splitOnP_eq_singleton hfirst] at h
    rcases List.mem_cons.mp h with rfl | h
    · exact ⟨[], b :: rest, rfl, .inl rfl, hfirst, .inr ⟨b, rest, rfl, hb⟩⟩
    · obtain ⟨x, y, rfl, hx, hpiece, hy⟩ := exists_append_of_mem_splitOnP h
      refine ⟨first ++ b :: x, y, by simp, .inr ?_, hpiece, hy⟩
      rcases hx with rfl | ⟨x', b', rfl, hb'⟩
      · exact ⟨first, b, rfl, hb⟩
      · exact ⟨first ++ b :: x', b', by simp, hb'⟩
termination_by t.length
decreasing_by
  subst_vars
  simp only [List.length_append, List.length_cons]
  omega

variable (hp : ∀ c, p c = true → isLineBreak c = true)
include hp

/-- A piece between line breaks lies within the text. -/
theorem within_of_mem_splitOnP {t piece : Text} (h : piece ∈ t.splitOnP p) : Within piece t := by
  obtain ⟨x, y, rfl, hx, -, hy⟩ := exists_append_of_mem_splitOnP h
  refine ⟨x, y, rfl, ?_, ?_⟩
  · rcases hx with rfl | ⟨x', b, rfl, hb⟩
    · exact opens_nil
    · exact .inr ⟨x', b, [], rfl, hp b hb, nofun⟩
  · rcases hy with rfl | ⟨b, y', rfl, hb⟩
    · exact closes_nil
    · intro c hc
      obtain rfl : b = c := Option.some.inj hc
      exact isSpace_of_isLineBreak (hp b hb)

omit hp in
/-- A piece that a coarser split does not break lies within one of its pieces. -/
theorem Within.exists_piece {v t : Text} (h : Within v t) (hv : ∀ c ∈ v, p c = false) :
    ∃ piece ∈ t.splitOnP p, Within v piece := by
  obtain ⟨x, y, rfl, hx, hy⟩ := h
  -- the piece goes from the last break before `v` to the first one behind it
  obtain ⟨x₁, x₂, rfl, hx₁, hx₂⟩ : ∃ x₁ x₂, x = x₁ ++ x₂ ∧
      (x₁ = [] ∨ ∃ x' b, x₁ = x' ++ [b] ∧ p b = true) ∧ ∀ c ∈ x₂, p c = false := by
    rcases exists_last_break p x with hno | ⟨x', b, x₂, rfl, hb, hx₂⟩
    · exact ⟨[], x, rfl, .inl rfl, hno⟩
    · exact ⟨x' ++ [b], x₂, by simp, .inr ⟨x', b, rfl, hb⟩, hx₂⟩
  obtain ⟨y₁, y₂, rfl, hy₁, hy₂⟩ : ∃ y₁ y₂, y = y₁ ++ y₂ ∧ (∀ c ∈ y₁, p c = false) ∧
      (y₂ = [] ∨ ∃ b y', y₂ = b :: y' ∧ p b = true) := by
    rcases exists_first_break p y with hno | ⟨y₁, b, y', rfl, hb, hy₁⟩
    · exact ⟨y, [], by simp, hno, .inl rfl⟩
    · exact ⟨y₁, b :: y', rfl, hy₁, .inr ⟨b, y', rfl, hb⟩⟩
  refine ⟨x₂ ++ (v ++ y₁), ?_, x₂, y₁, rfl, hx.suffix, hy.of_append⟩
  have hsplit : x₁ ++ x₂ ++ (v ++ (y₁ ++ y₂)) = x₁ ++ ((x₂ ++ (v ++ y₁)) ++ y₂) := by simp
  rw [hsplit]
  apply mem_splitOnP_of_append hx₁ _ hy₂
  intro c hc
  rcases List.mem_append.mp hc with hc | hc
  · exact hx₂ c hc
  · exact (List.mem_append.mp hc).elim (hv c) (hy₁ c)

end Pieces

/-- The pieces in text mode are pieces of the text itself; an empty one is missing for each carriage
return in front of a newline. -/
theorem exists_splitOnP_universalNewlines (t : Text) :
    ∃ first rest rest', (universalNewlines t).splitOnP isLineBreak = first :: rest ∧
      t.splitOnP isLineBreak = first :: rest' ∧ rest ⊆ rest' := by
  have hbreak : ∀ c u, isLineBreak c = true →
      List.splitOnP isLineBreak (c :: u) = [] :: u.splitOnP isLineBreak := by
    intro c u hc
    rw [List.splitOnP_cons_eq_if_modifyHead, if_pos hc]
  induction t using universalNewlines_induction with
  | nil => exact ⟨[], [], [], rfl, rfl, fun _ h => h⟩
  | crlf t ih =>
    obtain ⟨first, rest, rest', hu, ht, hsub⟩ := ih
    refine ⟨[], first :: rest, [] :: first :: rest', ?_, ?_, ?_⟩
    · rw [universalNewlines_crlf, hbreak _ _ (by decide), hu]
    · rw [hbreak _ _ (by decide), hbreak _ _ (by decide), ht]
    · exact List.subset_cons_of_subset _ (List.cons_subset_cons _ hsub)
  | cr t hhead ih =>
    obtain ⟨first, rest, rest', hu, ht, hsub⟩ := ih
    refine ⟨[], first :: rest, first :: rest', ?_, ?_, List.cons_subset_cons _ hsub⟩
    · rw [universalNewlines_return hhead, hbreak _ _ (by decide), hu]
    · rw [hbreak _ _ (by decide), ht]
  | cons c t hcr ih =>
    obtain ⟨first, rest, rest', hu, ht, hsub⟩ := ih
    rw [universalNewlines_cons hcr]
    cases hc : isLineBreak c with
    | true =>
      refine ⟨[], first :: rest, first :: rest', ?_, ?_, List.cons_subset_cons _ hsub⟩
      · rw [hbreak _ _ hc, hu]
      · rw [hbreak _ _ hc, ht]
    | false =>
      refine ⟨c :: first, rest, rest', ?_, ?_, hsub⟩
      · rw [List.splitOnP_cons_eq_if_modifyHead, if_neg (by simp [hc]), hu, List.modifyHead_cons]
      · rw [List.splitOnP_cons_eq_if_modifyHead, if_neg (by simp [hc]), ht, List.modifyHead_cons]

theorem splitlines_subset (t : Text) : splitlines t ⊆ t.splitOnP isLineBreak := by
  obtain ⟨first, rest, rest', hu, ht, hsub⟩ := exists_splitOnP_universalNewlines t
  rw [splitlines, hu, ht]
  exact List.cons_subset_cons _ hsub

/-- A line in text mode lies within the text. -/
theorem within_of_mem_splitlines {t line : Text} (h : line ∈ splitlines t) :
    Within line t ∧ ∀ c ∈ line, isLineBreak c = false := by
  refine ⟨within_of_mem_splitOnP (fun _ hc => hc) (splitlines_subset t h), ?_⟩
  intro c hc
  exact (mem_of_mem_splitOnP h hc).2

/-- A text in text mode is the text itself to whoever splits it into stripped lines. -/
theorem Within.of_universalNewlines {v t : Text} (h : Within v (universalNewlines t))
    (hv : ∀ c ∈ v, isLineBreak c = false) : Within v t := by
  obtain ⟨piece, hpiece, hin⟩ := h.exists_piece hv
  obtain ⟨first, rest, rest', hu, ht, hsub⟩ := exists_splitOnP_universalNewlines t
  have hmem : piece ∈ t.splitOnP isLineBreak := by
    rw [hu] at hpiece
    rw [ht]
    exact List.cons_subset_cons _ hsub hpiece
  exact hin.trans (within_of_mem_splitOnP (fun _ hc => hc) hmem)

/-- Characters left out before a split or after it. -/
theorem splitOn_filter {q : Char → Bool} {sep : Char} (hsep : q sep = true) (t : Text) :
    (t.filter q).splitOn sep = (t.splitOn sep).map (List.filter q) := by
  induction t with
  | nil => rfl
  | cons c t ih =>
    obtain ⟨first, rest, hsplit⟩ := List.exists_cons_of_ne_nil (List.splitOn_ne_nil sep t)
    rw [List.splitOn_cons_eq_if_modifyHead]
    by_cases hc : c = sep
    · subst hc
      rw [List.filter_cons_of_pos hsep, List.splitOn_cons_eq_if_modifyHead, if_pos (by simp),
        if_pos (by simp), ih]
      rfl
    · rw [if_neg (by simp [hc]), hsplit, List.modifyHead_cons, List.map_cons]
      rw [hsplit, List.map_cons] at ih
      cases hq : q c with
      | true =>
        rw [List.filter_cons_of_pos hq, List.splitOn_cons_eq_if_modifyHead, if_neg (by simp [hc]),
          ih, List.modifyHead_cons, List.filter_cons_of_pos hq]
      | false => rw [List.filter_cons_of_neg (by simp [hq]), List.filter_cons_of_neg (by simp [hq]), ih]

/-- Texts that are written with a newline behind each. -/
theorem mem_splitOn_joined {lines : List Text} {line : Text}
    (h : line ∈ ((lit "\n").intercalate lines ++ ['\n']).splitOn '\n') :
    line = [] ∨ ∃ t ∈ lines, line ∈ t.splitOn '\n' := by
  induction lines with
  | nil =>
    have hempty : (['\n'] : Text).splitOn '\n' = [[], []] := by decide
    rw [List.intercalate_nil, List.nil_append, hempty] at h
    exact .inl (by simpa using h)
  | cons t lines ih =>
    cases lines with
    | nil =>
      rw [List.intercalate_singleton, List.splitOn_append_cons_self] at h
      rcases List.mem_append.mp h with h | h
      · exact .inr ⟨t, List.mem_cons_self .., h⟩
      · left
        simpa using h
    | cons u lines =>
      rw [List.intercalate_cons_cons, List.append_assoc, List.append_assoc,
        show lit "\n" = ['\n'] from rfl, List.singleton_append, List.splitOn_append_cons_self] at h
      rcases List.mem_append.mp h with h | h
      · exact .inr ⟨t, List.mem_cons_self .., h⟩
      · rcases ih h with rfl | ⟨v, hv, hin⟩
        · exact .inl rfl
        · exact .inr ⟨v, List.mem_cons_of_mem _ hv, hin⟩

theorem mem_joined_splitOn {lines : List Text} {line : Text} (h : line ∈ lines) (hn : '\n' ∉ line) :
    line ∈ ((lit "\n").intercalate lines ++ ['\n']).splitOn '\n' := by
  induction lines with
  | nil => nomatch h
  | cons t lines ih =>
    cases lines with
    | nil =>
      obtain rfl := List.mem_singleton.mp h
      rw [List.intercalate_singleton, List.splitOn_append_cons_self, List.splitOn_eq_singleton hn]
      exact List.mem_cons_self ..
    | cons u lines =>
      rw [List.intercalate_cons_cons, List.append_assoc, List.append_assoc,
        show lit "\n" = ['\n'] from rfl, List.singleton_append, List.splitOn_append_cons_self]
      rcases List.mem_cons.mp h with rfl | h
      · rw [List.splitOn_eq_singleton hn]
        exact List.mem_cons_self ..
      · exact List.mem_append_right _ (ih h)

/-- A text around its last `sep`. -/
theorem eq_append_last {sep : Char} {t : Text} (h : sep ∈ t) :
    t = (t.rdropWhile (· != sep)).dropLast ++ sep :: t.rtakeWhile (· != sep) := by
  have hne : t.rdropWhile (· != sep) ≠ [] := by
    intro hnil
    have hall := List.rdropWhile_eq_nil_iff.mp hnil sep h
    simp at hall
  have hlast : (t.rdropWhile (· != sep)).getLast hne = sep := by
    simpa using List.rdropWhile_last_not (· != sep) t hne
  have hsplit : (t.rdropWhile (· != sep)).dropLast ++ [sep] = t.rdropWhile (· != sep) := by
    have happend := List.dropLast_append_getLast hne
    rwa [hlast] at happend
  rw [← List.singleton_append, ← List.append_assoc, hsplit, List.rdropWhile_append_rtakeWhile]

theorem exists_append_last {sep : Char} {t : Text} (h : sep ∈ t) :
    ∃ a b, t = a ++ sep :: b ∧ sep ∉ b := by
  refine ⟨_, _, eq_append_last h, fun hmem => ?_⟩
  have hne := List.mem_rtakeWhile_imp hmem
  simp at hne

/-- The last `sep` of a text is in one place. -/
theorem append_last_inj {sep : Char} {a b p q : Text} (h : a ++ sep :: p = b ++ sep :: q)
    (hp : sep ∉ p) (hq : sep ∉ q) : a = b ∧ p = q := by
  rcases List.append_eq_append_iff.mp h with ⟨w, hb, hrest⟩ | ⟨w, ha, hrest⟩
  · cases w with
    | nil => exact ⟨by rw [hb, List.append_nil], (List.cons.inj hrest).2⟩
    | cons c w =>
      apply absurd _ hp
      rw [(List.cons.inj hrest).2]
      exact List.mem_append_right _ (List.mem_cons_self ..)
  · cases w with
    | nil => exact ⟨by rw [ha, List.append_nil], (List.cons.inj hrest).2.symm⟩
    | cons c w =>
      apply absurd _ hq
      rw [(List.cons.inj hrest).2]
      exact List.mem_append_right _ (List.mem_cons_self ..)

/-! ## Comments -/

/-- `v` stands in `t` with spaces around it. -/
def Spaced (v t : Text) : Prop :=
  ∃ x y, t = x ++ (v ++ y) ∧ (∀ c ∈ x.getLast?, isSpace c = true) ∧ Closes y

theorem Closes.before {m : Char} {y : Text} (h : Closes y) : Closes (before m y) := by
  rcases eq_before_or m y with heq | ⟨u, heq⟩
  · rwa [← heq]
  · rw [heq] at h
    exact h.of_append

/-- A stripped text starts with something else than a space. -/
theorem head_not_space {c : Char} {v : Text} (hv : strip (c :: v) = c :: v) : isSpace c = false := by
  have hstart := dropWhile_strip (c :: v)
  rw [hv] at hstart
  by_contra hc
  rw [Bool.not_eq_false] at hc
  rw [List.dropWhile_cons_of_pos hc] at hstart
  have hlen := (List.dropWhile_suffix isSpace (l := v)).length_le
  rw [hstart, List.length_cons] at hlen
  omega

/-- Behind a mark, unless a line break and something else than spaces follow, no piece starts. -/
theorem Within.not_mem_comment {m : Char} (hm : isSpace m = false) {x v y : Text} (hx : Opens x)
    (hne : v ≠ []) (hv : strip v = v)
    (hplain : ∀ c ∈ (after m (x ++ (v ++ y))).rdropWhile isSpace, isLineBreak c = false) : m ∉ x := by
  intro hmem
  obtain ⟨c, v, rfl⟩ := List.exists_cons_of_ne_nil hne
  obtain ⟨u, hsplit⟩ := (eq_before_or m x).resolve_left fun heq => not_mem_before (heq ▸ hmem)
  have hcomment : after m (x ++ (c :: v ++ y)) = u ++ (c :: v ++ y) := by
    conv_lhs => rw [hsplit]
    rw [List.append_assoc, List.cons_append, after_append_cons not_mem_before]
  rcases hx with hspaces | ⟨x₀, b, sp, hbreak, hb, hsp⟩
  · rw [hspaces m hmem] at hm
    nomatch hm
  · -- the line break stands behind the mark, and the piece, which is no space, behind it
    have hmb : m ∉ b :: sp := by
      intro hin
      rcases List.mem_cons.mp hin with rfl | hin
      · rw [isSpace_of_isLineBreak hb] at hm
        nomatch hm
      · rw [hsp m hin] at hm
        nomatch hm
    obtain ⟨w, rfl⟩ : ∃ w, u = w ++ b :: sp := by
      rcases List.append_eq_append_iff.mp (hsplit.symm.trans hbreak) with ⟨w, -, hw⟩ | ⟨w, -, hw⟩
      · cases w with
        | nil =>
          obtain ⟨rfl, -⟩ := List.cons.inj hw
          exact absurd (List.mem_cons_self ..) hmb
        | cons d w => exact ⟨w, (List.cons.inj hw).2⟩
      · exact absurd (hw ▸ List.mem_append_right w (List.mem_cons_self ..)) hmb
    have hb' := hplain b (by
      rw [hcomment, List.cons_append, rdropWhile_append_cons (head_not_space hv)]
      simp)
    rw [hb] at hb'
    nomatch hb'

/-- **`Within.before`** — a piece that does not come out of the comment is, up to the mark, a part of
what stands in front of the comment. -/
theorem Within.before {m : Char} (hm : isSpace m = false) {v t : Text} (h : Within v t)
    (hne : v ≠ []) (hv : strip v = v)
    (hplain : ∀ c ∈ (after m t).rdropWhile isSpace, isLineBreak c = false) :
    Spaced (before m v) (before m t) := by
  obtain ⟨x, y, rfl, hx, hy⟩ := h
  have hnot : m ∉ x := Within.not_mem_comment hm hx hne hv hplain
  rw [before_append_of_not_mem hnot]
  by_cases hmv : m ∈ v
  · exact ⟨x, [], by rw [before_append_of_mem hmv, List.append_nil], hx.getLast, closes_nil⟩
  · refine ⟨x, ProxyGateway.Lang.before m y, ?_, hx.getLast, hy.before⟩
    rw [before_append_of_not_mem hmv, before_of_not_mem hmv]

/-- Characters that are no spaces can be left out on both sides. -/
theorem Spaced.filter {q : Char → Bool} (hq : ∀ c, isSpace c = true → q c = true) {v t : Text}
    (h : Spaced v t) : Spaced (v.filter q) (t.filter q) := by
  obtain ⟨x, y, rfl, hx, hy⟩ := h
  refine ⟨x.filter q, y.filter q, by simp, ?_, ?_⟩
  · rcases List.eq_nil_or_concat' x with rfl | ⟨x', c, rfl⟩
    · exact nofun
    · have hc : isSpace c = true := hx c (by simp)
      rw [List.filter_append, List.filter_singleton, hq c hc]
      intro d hd
      obtain rfl : c = d := by simpa using hd
      exact hc
  · cases y with
    | nil => exact closes_nil
    | cons c y =>
      have hc : isSpace c = true := hy c rfl
      rw [List.filter_cons_of_pos (hq c hc)]
      intro d hd
      obtain rfl : c = d := Option.some.inj hd
      exact hc

/-- What is in front of the mark, with some characters left out. -/
theorem before_filter {q : Char → Bool} {m : Char} (hq : q m = true) (t : Text) :
    before m (t.filter q) = (before m t).filter q := by
  have hnot : m ∉ (before m t).filter q := fun h => not_mem_before (List.mem_of_mem_filter h)
  rcases eq_before_or m t with heq | ⟨u, heq⟩
  · conv_lhs => rw [heq]
    exact before_of_not_mem hnot
  · conv_lhs => rw [heq, List.filter_append, List.filter_cons_of_pos hq]
    rw [before_append_of_not_mem hnot]
    simp [before]

/-! ## Trimming -/

section Trim

variable {sp : Char → Bool}

/-- Stripping of what another program takes for spaces. -/
def trimBy (sp : Char → Bool) (t : Text) : Text := (t.dropWhile sp).rdropWhile sp

theorem trimBy_of_spaces {t : Text} (h : ∀ c ∈ t, sp c = true) : trimBy sp t = [] := by
  rw [trimBy, List.dropWhile_eq_nil_iff.mpr h]
  rfl

theorem trimBy_append {a b : Text} (ha : ∀ c ∈ a, sp c = true) (hb : ∀ c ∈ b, sp c = true)
    (s : Text) : trimBy sp (a ++ (s ++ b)) = trimBy sp s := by
  rw [trimBy, List.dropWhile_append_of_pos ha, List.dropWhile_append]
  split
  · next hempty =>
    rw [trimBy, List.isEmpty_iff.mp hempty, List.dropWhile_eq_nil_iff.mpr hb]
  · have hrev : ∀ c ∈ b.reverse, sp c = true := fun c hc => hb c (List.mem_reverse.mp hc)
    rw [trimBy, List.rdropWhile, List.reverse_append, List.dropWhile_append_of_pos hrev,
      List.rdropWhile]

theorem exists_trimBy (sp : Char → Bool) (t : Text) : ∃ a b, t = a ++ (trimBy sp t ++ b) ∧
    (∀ c ∈ a, sp c = true) ∧ ∀ c ∈ b, sp c = true := by
  refine ⟨t.takeWhile sp, (t.dropWhile sp).rtakeWhile sp, ?_, ?_, ?_⟩
  · rw [trimBy, List.rdropWhile_append_rtakeWhile, List.takeWhile_append_dropWhile]
  · exact fun c hc => List.mem_takeWhile_imp hc
  · exact fun c hc => List.mem_rtakeWhile_imp hc

/-- A word is not cut by what ends a piece. -/
theorem exists_eq_append_of_closes {v y s b : Text} (h : v ++ y = s ++ b) (hy : Closes y)
    (hs : ∀ c ∈ s, isSpace c = false) : ∃ w, v = s ++ w ∧ b = w ++ y := by
  rcases List.append_eq_append_iff.mp h with ⟨w, hsplit, hrest⟩ | ⟨w, hsplit, hrest⟩
  · cases w with
    | nil =>
      rw [List.append_nil] at hsplit
      exact ⟨[], by rw [List.append_nil, hsplit], by simpa using hrest.symm⟩
    | cons c w =>
      have hc := hy c (by rw [hrest]; rfl)
      rw [hs c (by rw [hsplit]; simp)] at hc
      nomatch hc
  · exact ⟨w, hsplit, hrest⟩

/-- **`trimBy_spaced`** — a part with spaces around it has nothing left when it is trimmed, or all that
the whole has, if that is one word. -/
theorem trimBy_spaced {v t : Text} (h : Spaced v t) (hword : ∀ c ∈ trimBy sp t, isSpace c = false) :
    trimBy sp v = [] ∨ trimBy sp v = trimBy sp t := by
  obtain ⟨x, y, htext, hx, hy⟩ := h
  obtain ⟨a, b, hsplit, ha, hb⟩ := exists_trimBy sp t
  have hwhole : ∀ s, t = a ++ (s ++ b) → trimBy sp t = trimBy sp s := by
    rintro s rfl
    exact trimBy_append ha hb s
  have htrim := hwhole _ hsplit
  generalize trimBy sp t = s at hsplit hword htrim
  -- the part starts among the spaces in front, or the word does
  have hpart : ∀ w v', (∀ c ∈ w, sp c = true) → v = w ++ v' → v' ++ y = s ++ b →
      trimBy sp v = [] ∨ trimBy sp v = s := by
    intro w v' hw hv hrest
    obtain ⟨w', hv', hb'⟩ := exists_eq_append_of_closes hrest hy hword
    right
    rw [hv, hv', trimBy_append hw, ← htrim]
    intro c hc
    exact hb c (hb' ▸ List.mem_append_left y hc)
  rw [htext] at hsplit
  rcases List.append_eq_append_iff.mp hsplit with ⟨w, hax, hrest⟩ | ⟨w, hxa, hrest⟩
  · have hw : ∀ c ∈ w, sp c = true := fun c hc => ha c (hax ▸ List.mem_append_right x hc)
    rcases List.append_eq_append_iff.mp hrest with ⟨w', hwv, -⟩ | ⟨w', hvw, hrest⟩
    · left
      apply trimBy_of_spaces
      intro c hc
      exact hw c (hwv ▸ List.mem_append_left w' hc)
    · exact hpart w w' hw hvw hrest.symm
  · -- in front of the part stands a space, and the word has none
    rcases List.append_eq_append_iff.mp hrest with ⟨w', -, hback⟩ | ⟨w', hsw, hback⟩
    · left
      apply trimBy_of_spaces
      intro c hc
      exact hb c (by rw [hback]; simp [hc])
    · rcases List.eq_nil_or_concat' w with rfl | ⟨w, c, rfl⟩
      · rw [List.nil_append] at hsw
        exact hpart [] v nofun rfl (hsw ▸ hback)
      · have hc := hx c (by rw [hxa]; simp)
        rw [hword c (by rw [hsw]; simp)] at hc
        nomatch hc

end Trim

/-! ## Lists of lines -/

theorem head_strip (t : Text) : (strip t).head? = (t.dropWhile isSpace).head? := by
  cases hdrop : t.dropWhile isSpace with
  | nil => rw [strip, hdrop]; rfl
  | cons c u =>
    have hc : isSpace c = false := by
      have hhead := List.head_dropWhile_not isSpace (l := t) (by rw [hdrop]; simp)
      simpa [hdrop] using hhead
    rw [strip, hdrop, ← List.nil_append (c :: u), rdropWhile_append_cons hc]
    rfl

/-- The first character of a text, spaces apart, is the first one of some line. -/
theorem exists_piece_head {t : Text} {c : Char} (h : (t.dropWhile isSpace).head? = some c) :
    ∃ piece ∈ t.splitOnP isLineBreak, (piece.dropWhile isSpace).head? = some c := by
  induction t with
  | nil => nomatch h
  | cons d t ih =>
    obtain ⟨first, rest, hsplit⟩ := List.exists_cons_of_ne_nil (List.splitOnP_ne_nil isLineBreak t)
    rw [List.splitOnP_cons_eq_if_modifyHead]
    by_cases hd : isSpace d = true
    · rw [List.dropWhile_cons_of_pos hd] at h
      obtain ⟨piece, hpiece, hhead⟩ := ih h
      split
      · exact ⟨piece, List.mem_cons_of_mem _ hpiece, hhead⟩
      · rw [hsplit] at hpiece ⊢
        rcases List.mem_cons.mp hpiece with rfl | hpiece
        · refine ⟨d :: piece, List.mem_cons_self .., ?_⟩
          rw [List.dropWhile_cons_of_pos hd]
          exact hhead
        · exact ⟨piece, List.mem_cons_of_mem _ hpiece, hhead⟩
    · have hbreak : ¬ isLineBreak d = true := fun hb => hd (isSpace_of_isLineBreak hb)
      rw [if_neg hbreak, hsplit]
      rw [List.dropWhile_cons_of_neg hd] at h
      refine ⟨d :: first, List.mem_cons_self .., ?_⟩
      rw [List.dropWhile_cons_of_neg hd]
      exact h

theorem dropWhile_universalNewlines (t : Text) :
    ((universalNewlines t).dropWhile isSpace).head? = (t.dropWhile isSpace).head? := by
  have hcr : isSpace '\r' = true := by decide
  have hlf : isSpace '\n' = true := by decide
  induction t using universalNewlines_induction with
  | nil => rfl
  | crlf t ih =>
    rw [universalNewlines_crlf, List.dropWhile_cons_of_pos hlf, List.dropWhile_cons_of_pos hcr,
      List.dropWhile_cons_of_pos hlf, ih]
  | cr t hhead ih =>
    rw [universalNewlines_return hhead, List.dropWhile_cons_of_pos hlf,
      List.dropWhile_cons_of_pos hcr, ih]
  | cons c t hc ih =>
    rw [universalNewlines_cons hc]
    by_cases hsp : isSpace c = true
    · rw [List.dropWhile_cons_of_pos hsp, List.dropWhile_cons_of_pos hsp, ih]
    · rw [List.dropWhile_cons_of_neg hsp, List.dropWhile_cons_of_neg hsp]
      rfl

theorem exists_line_head {t : Text} {c : Char} (h : (strip t).head? = some c) :
    ∃ line ∈ splitlines t, (strip line).head? = some c := by
  rw [head_strip, ← dropWhile_universalNewlines] at h
  obtain ⟨line, hline, hhead⟩ := exists_piece_head h
  exact ⟨line, hline, (head_strip line).trans hhead⟩

/-- What lines joined by a newline take, with the newlines. -/
def joinedLength (lines : List Text) : Nat := (lines.map fun line => line.length + 1).sum

theorem joinedLength_perm {lines lines' : List Text} (h : lines.Perm lines') :
    joinedLength lines = joinedLength lines' := (h.map _).sum_nat

theorem length_intercalate {lines : List Text} (hne : lines ≠ []) :
    ((lit "\n").intercalate lines).length + 1 = joinedLength lines := by
  induction lines with
  | nil => exact absurd rfl hne
  | cons line lines ih =>
    cases lines with
    | nil =>
      rw [List.intercalate_singleton]
      rfl
    | cons next lines =>
      rw [List.intercalate_cons_cons, List.length_append, List.length_append, joinedLength,
        List.map_cons, List.sum_cons, ← joinedLength, ← ih (List.cons_ne_nil _ _)]
      show line.length + 1 + _ + 1 = _
      omega

theorem joinedLength_splitOnP (p : Char → Bool) (t : Text) :
    joinedLength (t.splitOnP p) = t.length + 1 := by
  induction t with
  | nil => rfl
  | cons c t ih =>
    obtain ⟨first, rest, hsplit⟩ := List.exists_cons_of_ne_nil (List.splitOnP_ne_nil p t)
    rw [List.splitOnP_cons_eq_if_modifyHead, List.length_cons]
    rw [hsplit] at ih ⊢
    simp only [joinedLength, List.map_cons, List.sum_cons] at ih
    split
    · simp only [joinedLength, List.map_cons, List.sum_cons, List.length_nil]
      omega
    · simp only [joinedLength, List.modifyHead_cons, List.map_cons, List.sum_cons, List.length_cons]
      omega

theorem length_universalNewlines_le (t : Text) : (universalNewlines t).length ≤ t.length := by
  induction t using universalNewlines_induction with
  | nil => exact Nat.le_refl _
  | crlf t ih =>
    rw [universalNewlines_crlf]
    simp only [List.length_cons]
    omega
  | cr t hhead ih =>
    rw [universalNewlines_return hhead]
    exact Nat.succ_le_succ ih
  | cons c t hc ih =>
    rw [universalNewlines_cons hc]
    exact Nat.succ_le_succ ih

theorem splitOnP_intercalate {p : Char → Bool} (hp : p '\n' = true) {lines : List Text}
    (hne : lines ≠ []) (h : ∀ line ∈ lines, ∀ c ∈ line, p c = false) :
    ((lit "\n").intercalate lines).splitOnP p = lines := by
  induction lines with
  | nil => exact absurd rfl hne
  | cons line lines ih =>
    have hline := List.splitOnP_eq_singleton (h line (List.mem_cons_self ..))
    cases lines with
    | nil => rw [List.intercalate_singleton, hline]
    | cons next lines =>
      rw [List.intercalate_cons_cons, List.append_assoc]
      show (line ++ '\n' :: (lit "\n").intercalate (next :: lines)).splitOnP p = _
      rw [List.splitOnP_append_cons _ _ hp, hline,
        ih (List.cons_ne_nil _ _) fun l hl => h l (List.mem_cons_of_mem _ hl)]
      rfl

theorem not_mem_intercalate {c : Char} (hc : c ≠ '\n') {lines : List Text}
    (h : ∀ line ∈ lines, c ∉ line) : c ∉ (lit "\n").intercalate lines := by
  induction lines with
  | nil => exact List.not_mem_nil
  | cons line lines ih =>
    have hline := h line (List.mem_cons_self ..)
    have hrest := ih fun l hl => h l (List.mem_cons_of_mem _ hl)
    cases lines with
    | nil =>
      rw [List.intercalate_singleton]
      exact hline
    | cons next lines =>
      rw [List.intercalate_cons_cons]
      simp only [List.mem_append, not_or]
      exact ⟨⟨hline, fun hmem => hc (List.mem_singleton.mp hmem)⟩, hrest⟩

/-- **`exists_reordered`** — the lines of a text in another order are the lines of a text that is not
longer. -/
theorem exists_reordered {t : Text} {lines : List Text} (h : lines.Perm (splitlines t)) :
    ∃ t', splitlines t' = lines ∧ t'.length ≤ t.length := by
  have hne : lines ≠ [] := by
    rintro rfl
    exact List.splitOnP_ne_nil _ _ h.nil_eq.symm
  have hbreak : ∀ line ∈ lines, ∀ c ∈ line, isLineBreak c = false := by
    intro line hline c hc
    exact (mem_of_mem_splitOnP (h.mem_iff.mp hline) hc).2
  have hplain : universalNewlines ((lit "\n").intercalate lines) = (lit "\n").intercalate lines := by
    apply universalNewlines_of_singleLine
    apply not_mem_intercalate (by decide)
    intro line hline hcr
    exact absurd (hbreak line hline '\r' hcr) (by decide)
  refine ⟨(lit "\n").intercalate lines, ?_, ?_⟩
  · rw [splitlines, hplain]
    exact splitOnP_intercalate (by decide) hne hbreak
  · have hjoined := length_intercalate hne
    rw [joinedLength_perm h, splitlines, joinedLength_splitOnP] at hjoined
    have hle := length_universalNewlines_le t
    omega

/-- Where a text breaks at newlines only, `str.splitlines` finds the lines of the file. -/
theorem splitlines_eq_pyLines {t : Text} (h : ∀ c ∈ t, isLineBreak c = true → c = '\n' ∨ c = '\r') :
    splitlines t = pyLines t := by
  have hsame : ∀ u : Text, (∀ c ∈ u, isLineBreak c = (c == '\n')) →
      u.splitOnP isLineBreak = u.splitOnP (· == '\n') := by
    intro u hu
    induction u with
    | nil => rfl
    | cons c u ih =>
      rw [List.splitOnP_cons_eq_if_modifyHead, List.splitOnP_cons_eq_if_modifyHead,
        hu c (List.mem_cons_self ..), ih fun d hd => hu d (List.mem_cons_of_mem _ hd)]
  refine hsame _ fun c hc => ?_
  by_cases hn : c = '\n'
  · rw [hn]
    rfl
  · have hne : (c == '\n') = false := by simpa using hn
    rw [hne]
    by_contra hbreak
    rw [Bool.not_eq_false] at hbreak
    rcases h c (mem_of_mem_universalNewlines hn hc) hbreak with heq | heq
    · exact hn heq
    · exact return_not_mem_universalNewlines t (heq ▸ hc)

/-! ## Readers that skip blank lines and the spaces around a line -/

/-- **`SkipsSpaces`** — a reader of lines that makes nothing of a blank line, and the same of a line with
and without the spaces around it. -/
structure SkipsSpaces {β : Type*} (q : Text → Option β) : Prop where
  nil : q [] = none
  strip : ∀ line, q (strip line) = q line

namespace SkipsSpaces

variable {β : Type*} {q : Text → Option β} (hq : SkipsSpaces q) {p : Char → Bool}
include hq

theorem spaces {sp : Text} (h : ∀ c ∈ sp, isSpace c = true) : q sp = none := by
  have hblank : Lang.strip sp = [] := trimBy_of_spaces h
  rw [← hq.strip, hblank, hq.nil]

theorem cons {c : Char} (hc : isSpace c = true) (t : Text) : q (c :: t) = q t := by
  have hsame : Lang.strip (c :: t) = Lang.strip t := by
    rw [Lang.strip, List.dropWhile_cons_of_pos hc, Lang.strip]
  rw [← hq.strip, hsame, hq.strip]

theorem concat {c : Char} (hc : isSpace c = true) (t : Text) : q (t ++ [c]) = q t := by
  have hsame : Lang.strip (t ++ [c]) = Lang.strip t := by
    have hone : ∀ d ∈ [c], isSpace d = true := by simpa using hc
    exact trimBy_append (a := []) nofun hone t
  rw [← hq.strip, hsame, hq.strip]

/-- Spaces in front make no difference. -/
theorem filterMap_append_left {sp : Text} (h : ∀ c ∈ sp, isSpace c = true) (t : Text) :
    ((sp ++ t).splitOnP p).filterMap q = (t.splitOnP p).filterMap q := by
  induction sp with
  | nil => rfl
  | cons c sp ih =>
    have hc := h c (List.mem_cons_self ..)
    have hrest := ih fun d hd => h d (List.mem_cons_of_mem _ hd)
    rw [List.cons_append, List.splitOnP_cons_eq_if_modifyHead, ← hrest]
    split
    · rw [List.filterMap_cons_none hq.nil]
    · obtain ⟨first, rest, hsplit⟩ := List.exists_cons_of_ne_nil (List.splitOnP_ne_nil p (sp ++ t))
      rw [hsplit, List.modifyHead_cons, List.filterMap_cons, List.filterMap_cons, hq.cons hc]

/-- Nor do spaces at the end. -/
theorem filterMap_append_right {sp : Text} (h : ∀ c ∈ sp, isSpace c = true) (t : Text) :
    ((t ++ sp).splitOnP p).filterMap q = (t.splitOnP p).filterMap q := by
  induction sp generalizing t with
  | nil => rw [List.append_nil]
  | cons c sp ih =>
    have hc := h c (List.mem_cons_self ..)
    have hrest := ih (fun d hd => h d (List.mem_cons_of_mem _ hd)) (t ++ [c])
    rw [List.append_assoc, List.singleton_append] at hrest
    rw [hrest]
    by_cases hp : p c = true
    · rw [List.splitOnP_append_cons t [] hp, List.filterMap_append, List.splitOnP_nil,
        List.filterMap_cons_none hq.nil, List.filterMap_nil, List.append_nil]
    · obtain ⟨pieces, last, hsplit⟩ := splitOnP_append_tail p t
      have hone : ∀ d ∈ [c], p d = false := by simpa using hp
      have htext := hsplit [] nofun
      rw [List.append_nil, List.append_nil] at htext
      rw [hsplit [c] hone, htext, List.filterMap_append, List.filterMap_append,
        List.filterMap_cons, List.filterMap_cons, hq.concat hc]

/-- **`filterMap_strip`** — stripping the whole text makes no difference. -/
theorem filterMap_strip (t : Text) :
    ((Lang.strip t).splitOnP p).filterMap q = (t.splitOnP p).filterMap q := by
  obtain ⟨a, b, hsplit, ha, hb⟩ := exists_trimBy isSpace t
  conv_rhs => rw [hsplit]
  rw [hq.filterMap_append_left ha, hq.filterMap_append_right hb]
  rfl

end SkipsSpaces

/-- Cutting at a mark, then stripping: the spaces around the text make no difference. -/
theorem strip_before_strip {m : Char} (hm : isSpace m = false) (t : Text) :
    strip (before m (strip t)) = strip (before m t) := by
  obtain ⟨a, b, hsplit, ha, hb⟩ := exists_trimBy isSpace t
  have hnot : ∀ sp : Text, (∀ c ∈ sp, isSpace c = true) → m ∉ sp := by
    intro sp hsp hmem
    rw [hsp m hmem] at hm
    nomatch hm
  have hstrip : trimBy isSpace t = strip t := rfl
  rw [hstrip] at hsplit
  conv_rhs => rw [hsplit, before_append_of_not_mem (hnot a ha)]
  by_cases hmem : m ∈ strip t
  · rw [before_append_of_mem hmem]
    have hnil : trimBy isSpace (a ++ (before m (strip t) ++ [])) = trimBy isSpace (before m (strip t)) :=
      trimBy_append ha (fun _ hc => absurd hc List.not_mem_nil) _
    rw [List.append_nil] at hnil
    exact hnil.symm
  · rw [before_append_of_not_mem hmem, before_of_not_mem hmem, before_of_not_mem (hnot b hb)]
    exact (trimBy_append ha hb (strip t)).symm

/-- A line break in a text cuts its lines there. -/
theorem filterMap_splitlines_append {β : Type*} {q : Text → Option β} (hq : q [] = none) (a b : Text) :
    (splitlines (a ++ '\n' :: b)).filterMap q =
      (splitlines a).filterMap q ++ (splitlines b).filterMap q := by
  obtain ⟨t, ha, hall⟩ := universalNewlines_append_newline a
  have hcut : ∀ u : Text, ((t ++ '\n' :: u).splitOnP isLineBreak).filterMap q =
      (t.splitOnP isLineBreak).filterMap q ++ (u.splitOnP isLineBreak).filterMap q := by
    intro u
    rw [List.splitOnP_append_cons _ _ (by decide), List.filterMap_append]
  unfold splitlines
  rw [hall, hcut]
  rcases ha with ha | ha
  · rw [ha]
  · rw [ha, hcut [], List.splitOnP_nil, List.filterMap_cons_none hq, List.filterMap_nil,
      List.append_nil]

end ProxyGateway.Lang
