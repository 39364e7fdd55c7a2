/-
# ProxyGateway.Lang.Text — text as the Python scripts and the shell see it

`Text` is a list of code points.  The functions here are the string operations that the scripts are
written with: stripping, cutting at a character, splitting, and the two notions of a line (the text
mode of Python files, which also ends a line at a carriage return, and the newline of the shell).
Nothing here names the program.
-/
import Mathlib.Algebra.Ring.Nat
import Mathlib.Data.Bool.AllAny
import Mathlib.Data.List.DropRight
import Mathlib.Data.List.Infix

namespace ProxyGateway.Lang

abbrev Text := List Char

instance lawfulBEq_text : LawfulBEq Text := inferInstance

instance lawfulBEq_optionChar : LawfulBEq (Option Char) := inferInstance

/-- A string constant. -/
abbrev lit (s : String) : Text := s.toList

/-- Python's `str.isspace`, which is also `\s` of a `str` pattern. -/
def isSpace (c : Char) : Bool :=
  let n := c.toNat
  (9 ≤ n && n ≤ 13) || (28 ≤ n && n ≤ 32) || n == 0x85 || n == 0xa0 || n == 0x1680
    || (0x2000 ≤ n && n ≤ 0x200a) || n == 0x2028 || n == 0x2029 || n == 0x202f || n == 0x205f
    || n == 0x3000

/-- `t.strip()`. -/
def strip (t : Text) : Text := (t.dropWhile isSpace).rdropWhile isSpace

/-- `t.split(sep, 1)[0]`. -/
def before (sep : Char) (t : Text) : Text := t.takeWhile (· != sep)

/-- What follows the first `sep`. -/
def after (sep : Char) (t : Text) : Text := (t.dropWhile (· != sep)).drop 1

/-- `str(int(n))`. -/
def decimal (n : Nat) : Text := Nat.toDigits 10 n

/-- `os.path.splitext` of a file name: the extension starts at the last dot, unless nothing but dots
stands before it. -/
def splitext (name : Text) : Text × Text :=
  let root := (name.rdropWhile (· != '.')).dropLast
  if name.contains '.' && root.any (· != '.') then (root, '.' :: name.rtakeWhile (· != '.'))
  else (name, [])

/-- The text mode of a Python file: `\r\n` and a lone `\r` are read as `\n`. -/
def universalNewlines : Text → Text
  | [] => []
  | '\r' :: '\n' :: t => '\n' :: universalNewlines t
  | '\r' :: t => '\n' :: universalNewlines t
  | c :: t => c :: universalNewlines t

/-- The lines a Python program reads from a text file.  The empty piece after a final newline is
kept: every reader here skips blank lines. -/
def pyLines (t : Text) : List Text := (universalNewlines t).splitOn '\n'

/-- Where `str.splitlines` ends a line, beyond the newline. -/
def isLineBreak (c : Char) : Bool :=
  let n := c.toNat
  n == 0x0a || n == 0x0b || n == 0x0c || n == 0x0d || n == 0x1c || n == 0x1d || n == 0x1e
    || n == 0x85 || n == 0x2028 || n == 0x2029

/-- `text.splitlines()` on the output of a program read in text mode. -/
def splitlines (t : Text) : List Text := (universalNewlines t).splitOnP isLineBreak

/-- `$(…)`: the newlines at the end of the output are dropped. -/
def captured (t : Text) : Text := t.rdropWhile (· == '\n')

/-- A word that the `echo` of `bash` takes for options. -/
def isEchoOption : Text → Bool
  | '-' :: c :: t => (c :: t).all fun d => d == 'n' || d == 'e' || d == 'E'
  | _ => false

/-- What `echo` prints for one word. -/
def echo (w : Text) : Text :=
  if isEchoOption w then (if w.contains 'n' then [] else ['\n']) else w ++ ['\n']

theorem captured_eq_self_iff {t : Text} : captured t = t ↔ t.getLast? ≠ some '\n' := by
  rw [captured, List.rdropWhile_eq_self_iff]
  constructor
  · intro h hlast
    obtain ⟨init, rfl⟩ := List.getLast?_eq_some_iff.mp hlast
    exact h (by simp) (by simp)
  · intro h hne hlast
    apply h
    rw [List.getLast?_eq_some_getLast hne, beq_iff_eq.mp hlast]

theorem captured_of_not_mem {t : Text} (h : '\n' ∉ t) : captured t = t :=
  captured_eq_self_iff.mpr fun hlast => h (List.mem_of_getLast? hlast)

theorem captured_captured (t : Text) : captured (captured t) = captured t :=
  List.rdropWhile_idempotent _ _

/-- An option is not read back, every other word is, up to newlines at its end. -/
theorem captured_echo {w : Text} (h : '\n' ∉ w) :
    captured (echo w) = if isEchoOption w then [] else w := by
  unfold echo
  split
  · split <;> rfl
  · rw [captured, List.rdropWhile_concat_pos _ _ _ rfl]
    exact captured_of_not_mem h

/-! ## ASCII -/

theorem isUpper_iff {c : Char} : c.isUpper = true ↔ 65 ≤ c.toNat ∧ c.toNat ≤ 90 := by
  have hle : 'A'.val ≤ c.val ∧ c.val ≤ 'Z'.val ↔ 65 ≤ c.toNat ∧ c.toNat ≤ 90 :=
    and_congr UInt32.le_iff_toNat_le UInt32.le_iff_toNat_le
  exact decide_eq_true_iff.trans hle

theorem isLower_iff {c : Char} : c.isLower = true ↔ 97 ≤ c.toNat ∧ c.toNat ≤ 122 := by
  have hle : 'a'.val ≤ c.val ∧ c.val ≤ 'z'.val ↔ 97 ≤ c.toNat ∧ c.toNat ≤ 122 :=
    and_congr UInt32.le_iff_toNat_le UInt32.le_iff_toNat_le
  exact Bool.and_eq_true_iff.trans ((and_congr decide_eq_true_iff decide_eq_true_iff).trans hle)

theorem isDigit_range {c : Char} (h : c.isDigit = true) : 48 ≤ c.toNat ∧ c.toNat ≤ 57 := by
  simp only [Char.isDigit, Bool.and_eq_true, decide_eq_true_eq] at h
  exact ⟨UInt32.le_iff_toNat_le.mp h.1, UInt32.le_iff_toNat_le.mp h.2⟩

theorem toNat_of_isAlphanum {c : Char} (h : c.isAlphanum = true) :
    48 ≤ c.toNat ∧ c.toNat ≤ 57 ∨ 65 ≤ c.toNat ∧ c.toNat ≤ 90 ∨ 97 ≤ c.toNat ∧ c.toNat ≤ 122 := by
  rcases Bool.or_eq_true_iff.mp h with hletter | hdigit
  · rcases Bool.or_eq_true_iff.mp hletter with hupper | hlower
    · exact .inr (.inl (isUpper_iff.mp hupper))
    · exact .inr (.inr (isLower_iff.mp hlower))
  · exact .inl (isDigit_range hdigit)

/-- ASCII lower case changes capital letters only. -/
theorem toLower_eq_self_or (c : Char) : c.toLower = c ∨ 65 ≤ c.toNat ∧ c.toNat ≤ 90 := by
  unfold Char.toLower
  split
  · next h => exact .inr ⟨UInt32.le_iff_toNat_le.mp h.1, UInt32.le_iff_toNat_le.mp h.2⟩
  · exact .inl rfl

/-- ASCII upper case changes small letters only. -/
theorem toUpper_eq_self_or (c : Char) : c.toUpper = c ∨ 97 ≤ c.toNat ∧ c.toNat ≤ 122 := by
  unfold Char.toUpper
  split
  · next h => exact .inr ⟨UInt32.le_iff_toNat_le.mp h.1, UInt32.le_iff_toNat_le.mp h.2⟩
  · exact .inl rfl

/-! ## Numbers -/

theorem decimal_digits (n : Nat) : ∀ c ∈ decimal n, c.isDigit = true := by
  intro c hc
  exact Nat.isDigit_of_mem_toDigits (by omega) (by omega) hc

theorem colon_not_mem_decimal (n : Nat) : ':' ∉ decimal n := by
  intro hmem
  nomatch decimal_digits n ':' hmem

theorem decimal_injective : Function.Injective decimal := by
  intro a b h
  have hread : ∀ n, Nat.ofDigitChars 10 (decimal n) 0 = n := fun n =>
    Nat.ofDigitChars_ten_toDigits
  rw [← hread a, h, hread b]

/-! ## Stripping -/

theorem mem_dropWhile {p : Char → Bool} {c : Char} {t : Text} (hc : p c = false) (h : c ∈ t) :
    c ∈ t.dropWhile p := by
  induction t with
  | nil => nomatch h
  | cons d t ih =>
    by_cases hd : p d = true
    · rw [List.dropWhile_cons_of_pos hd]
      rcases List.mem_cons.mp h with rfl | h
      · rw [hc] at hd
        nomatch hd
      · exact ih h
    · rw [List.dropWhile_cons_of_neg hd]
      exact h

theorem mem_rdropWhile {p : Char → Bool} {c : Char} {t : Text} (hc : p c = false) (h : c ∈ t) :
    c ∈ t.rdropWhile p := by
  rw [List.rdropWhile, List.mem_reverse]
  exact mem_dropWhile hc (List.mem_reverse.mpr h)

/-- Stripping takes spaces only. -/
theorem mem_strip_of_mem {c : Char} {t : Text} (h : c ∈ t) (hc : isSpace c = false) : c ∈ strip t :=
  mem_rdropWhile hc (mem_dropWhile hc h)

theorem rdropWhile_strip {p : Char → Bool} (hp : ∀ c, p c = true → isSpace c = true) (t : Text) :
    (strip t).rdropWhile p = strip t :=
  List.rdropWhile_eq_self_iff.mpr fun hne hlast =>
    List.rdropWhile_last_not isSpace _ hne (hp _ hlast)

theorem dropWhile_strip (t : Text) : (strip t).dropWhile isSpace = strip t := by
  have hpre : strip t <+: t.dropWhile isSpace := List.rdropWhile_prefix _ _
  cases hs : strip t with
  | nil => rfl
  | cons c u =>
    rw [hs] at hpre
    obtain ⟨v, hv⟩ := hpre
    have hc : isSpace c = false := by
      have hhead := List.head_dropWhile_not isSpace (l := t) (by rw [← hv]; simp)
      simpa [← hv] using hhead
    rw [List.dropWhile_cons_of_neg (by simp [hc])]

@[simp] theorem strip_strip (t : Text) : strip (strip t) = strip t := by
  conv_lhs => rw [strip, dropWhile_strip]
  exact rdropWhile_strip (fun _ h => h) t

theorem strip_of_noSpace {t : Text} (h : ∀ c ∈ t, isSpace c = false) : strip t = t := by
  have hstart : t.dropWhile isSpace = t := by
    rw [List.dropWhile_eq_self_iff]
    intro hlen hspace
    rw [h _ (List.getElem_mem hlen)] at hspace
    nomatch hspace
  rw [strip, hstart, List.rdropWhile_eq_self_iff]
  intro hne hspace
  rw [h _ (List.getLast_mem hne)] at hspace
  nomatch hspace

theorem rdropWhile_append_cons {p : Char → Bool} {sep : Char} (hsep : p sep = false) (a b : Text) :
    (a ++ sep :: b).rdropWhile p = a ++ sep :: b.rdropWhile p := by
  induction b using List.reverseRecOn with
  | nil => simpa using List.rdropWhile_concat_neg p a sep (by simp [hsep])
  | append_singleton b c ih =>
    have hassoc : a ++ sep :: (b ++ [c]) = (a ++ sep :: b) ++ [c] := by simp
    rw [hassoc]
    by_cases hc : p c = true
    · rw [List.rdropWhile_concat_pos p _ c hc, List.rdropWhile_concat_pos p _ c hc, ih]
    · rw [List.rdropWhile_concat_neg p _ c hc, List.rdropWhile_concat_neg p _ c hc, hassoc]

/-- Around a mark each side is stripped at its own end. -/
theorem strip_append_cons {sep : Char} (hsep : isSpace sep = false) (a b : Text) :
    strip (a ++ sep :: b) = a.dropWhile isSpace ++ sep :: b.rdropWhile isSpace := by
  have hleft : (a ++ sep :: b).dropWhile isSpace = a.dropWhile isSpace ++ sep :: b := by
    rw [List.dropWhile_append]
    split
    · next hempty =>
      rw [List.isEmpty_iff.mp hempty, List.dropWhile_cons_of_neg (by simp [hsep])]
      rfl
    · rfl
  rw [strip, hleft, rdropWhile_append_cons hsep]

/-- Two stripped texts with a mark between them. -/
theorem strip_join {a b : Text} {sep : Char} (hsep : isSpace sep = false) (ha : strip a = a)
    (hb : strip b = b) : strip (a ++ sep :: b) = a ++ sep :: b := by
  have hstart := dropWhile_strip a
  have hend := rdropWhile_strip (fun _ h => h) b
  rw [ha] at hstart
  rw [hb] at hend
  rw [strip_append_cons hsep, hstart, hend]

theorem mem_of_mem_strip {c : Char} {t : Text} (h : c ∈ strip t) : c ∈ t :=
  (List.dropWhile_suffix isSpace).subset ((List.rdropWhile_prefix _ _).subset h)

/-! ## Cutting and splitting -/

theorem not_mem_before {sep : Char} {t : Text} : sep ∉ before sep t := fun h => by
  simpa using List.mem_takeWhile_imp h

theorem before_of_not_mem {sep : Char} {t : Text} (h : sep ∉ t) : before sep t = t :=
  List.takeWhile_eq_self_iff.mpr fun c hc => by simpa using fun heq : c = sep => h (heq ▸ hc)

/-- What follows the separator is cut off. -/
theorem before_append_of_mem {sep : Char} {t u : Text} (h : sep ∈ t) :
    before sep (t ++ u) = before sep t := by
  induction t with
  | nil => nomatch h
  | cons c t ih =>
    by_cases hc : c = sep
    · simp [before, hc]
    · have hmem : sep ∈ t := (List.mem_cons.mp h).resolve_left fun heq => hc heq.symm
      have hstep : ∀ s : Text, before sep (c :: s) = c :: before sep s := fun s =>
        List.takeWhile_cons_of_pos (by simpa using hc)
      rw [List.cons_append, hstep, hstep, ih hmem]

theorem before_append_of_not_mem {sep : Char} {t u : Text} (h : sep ∉ t) :
    before sep (t ++ u) = t ++ before sep u :=
  List.takeWhile_append_of_pos fun c hc => by simpa using fun heq : c = sep => h (heq ▸ hc)

theorem before_append_cons {sep : Char} {t : Text} (h : sep ∉ t) (u : Text) :
    before sep (t ++ sep :: u) = t := by
  rw [before_append_of_not_mem h, before, List.takeWhile_cons_of_neg (by simp), List.append_nil]

/-- A text ends where it is cut, or goes on with the separator. -/
theorem eq_before_or (sep : Char) (t : Text) :
    t = before sep t ∨ ∃ u, t = before sep t ++ sep :: u := by
  induction t with
  | nil => exact .inl rfl
  | cons c t ih =>
    by_cases hc : c = sep
    · exact .inr ⟨t, by simp [before, hc]⟩
    · have hstep : before sep (c :: t) = c :: before sep t :=
        List.takeWhile_cons_of_pos (by simpa using hc)
      rw [hstep]
      exact ih.imp (congrArg (c :: ·)) fun ⟨u, hu⟩ => ⟨u, congrArg (c :: ·) hu⟩

theorem after_append_cons {m : Char} {x : Text} (h : m ∉ x) (y : Text) :
    after m (x ++ m :: y) = y := by
  have hx : ∀ c ∈ x, (c != m) = true := by
    intro c hc
    simpa using fun heq : c = m => h (heq ▸ hc)
  rw [after, List.dropWhile_append_of_pos hx, List.dropWhile_cons_of_neg (by simp)]
  rfl

/-- A text in which no piece ends lengthens the last piece, whatever it is. -/
theorem splitOnP_append_tail (p : Char → Bool) (t : Text) :
    ∃ pieces last, ∀ u : Text, (∀ c ∈ u, p c = false) →
      (t ++ u).splitOnP p = pieces ++ [last ++ u] := by
  induction t with
  | nil => exact ⟨[], [], fun u hu => List.splitOnP_eq_singleton hu⟩
  | cons c t ih =>
    obtain ⟨pieces, last, hsplit⟩ := ih
    by_cases hc : p c = true
    · refine ⟨[] :: pieces, last, fun u hu => ?_⟩
      rw [List.cons_append, List.splitOnP_cons_eq_if_modifyHead, if_pos hc, hsplit u hu]
      rfl
    · cases pieces with
      | nil =>
        refine ⟨[], c :: last, fun u hu => ?_⟩
        rw [List.cons_append, List.splitOnP_cons_eq_if_modifyHead, if_neg hc, hsplit u hu]
        rfl
      | cons first pieces =>
        refine ⟨(c :: first) :: pieces, last, fun u hu => ?_⟩
        rw [List.cons_append, List.splitOnP_cons_eq_if_modifyHead, if_neg hc, hsplit u hu]
        rfl

/-- A text without the separator lengthens the last piece, whatever it is. -/
theorem splitOn_append_tail (sep : Char) (t : Text) :
    ∃ pieces last, ∀ u : Text, sep ∉ u → (t ++ u).splitOn sep = pieces ++ [last ++ u] := by
  obtain ⟨pieces, last, hsplit⟩ := splitOnP_append_tail (· == sep) t
  refine ⟨pieces, last, fun u hu => hsplit u fun c hc => ?_⟩
  simpa using fun heq : c = sep => hu (heq ▸ hc)

/-- A text without the separator lengthens the first piece, whatever it is. -/
theorem splitOn_append_head (sep : Char) (t : Text) :
    ∃ first pieces, ∀ u : Text, sep ∉ u → (u ++ t).splitOn sep = (u ++ first) :: pieces := by
  obtain ⟨first, pieces, hsplit⟩ := List.exists_cons_of_ne_nil (List.splitOn_ne_nil sep t)
  refine ⟨first, pieces, fun u hu => ?_⟩
  induction u with
  | nil => exact hsplit
  | cons c u ih =>
    have hc : (c == sep) = false := by simpa using fun heq : c = sep => hu (heq ▸ List.mem_cons_self ..)
    rw [List.cons_append, List.splitOn_cons_eq_if_modifyHead, hc,
      ih fun hmem => hu (List.mem_cons_of_mem _ hmem)]
    rfl

/-- The characters of a piece are characters of the text, and none ends a piece. -/
theorem mem_of_mem_splitOnP {p : Char → Bool} {c : Char} {t piece : Text}
    (h : piece ∈ t.splitOnP p) (hc : c ∈ piece) : c ∈ t ∧ p c = false := by
  induction t generalizing piece with
  | nil =>
    obtain rfl : piece = [] := by simpa using h
    nomatch hc
  | cons d t ih =>
    have hlater : ∀ piece ∈ t.splitOnP p, c ∈ piece → c ∈ d :: t ∧ p c = false := by
      intro piece hpiece hin
      exact ⟨List.mem_cons_of_mem _ (ih hpiece hin).1, (ih hpiece hin).2⟩
    rw [List.splitOnP_cons_eq_if_modifyHead] at h
    split at h
    · rcases List.mem_cons.mp h with rfl | h
      · nomatch hc
      · exact hlater piece h hc
    · next hd =>
      obtain ⟨first, rest, hsplit⟩ := List.exists_cons_of_ne_nil (List.splitOnP_ne_nil p t)
      rw [hsplit] at hlater h
      rcases List.mem_cons.mp h with rfl | h
      · rcases List.mem_cons.mp hc with rfl | hc
        · exact ⟨List.mem_cons_self .., by simpa using hd⟩
        · exact hlater first (List.mem_cons_self ..) hc
      · exact hlater piece (List.mem_cons_of_mem _ h) hc

theorem mem_of_mem_splitOn {sep c : Char} {t piece : Text} (h : piece ∈ t.splitOn sep)
    (hc : c ∈ piece) : c ∈ t ∧ c ≠ sep := by
  obtain ⟨hmem, hne⟩ := mem_of_mem_splitOnP h hc
  exact ⟨hmem, fun heq => by simp [heq] at hne⟩

/-- No piece of a split contains the separator. -/
theorem not_mem_of_mem_splitOn {sep : Char} {t piece : Text} (h : piece ∈ t.splitOn sep) :
    sep ∉ piece := fun hmem => (mem_of_mem_splitOn h hmem).2 rfl

/-- Every other character is in a piece. -/
theorem exists_piece_of_mem {sep c : Char} {t : Text} (h : c ∈ t) (hc : c ≠ sep) :
    ∃ piece ∈ t.splitOn sep, c ∈ piece := by
  induction t with
  | nil => nomatch h
  | cons d t ih =>
    obtain ⟨first, rest, hsplit⟩ := List.exists_cons_of_ne_nil (List.splitOn_ne_nil sep t)
    rw [List.splitOn_cons_eq_if_modifyHead]
    by_cases hd : (d == sep) = true
    · rw [if_pos hd]
      have hmem : c ∈ t := (List.mem_cons.mp h).resolve_left fun heq => hc (heq ▸ beq_iff_eq.mp hd)
      obtain ⟨piece, hpiece, hin⟩ := ih hmem
      exact ⟨piece, List.mem_cons_of_mem _ hpiece, hin⟩
    · rw [if_neg hd, hsplit, List.modifyHead_cons]
      rcases List.mem_cons.mp h with rfl | hmem
      · exact ⟨c :: first, List.mem_cons_self .., List.mem_cons_self ..⟩
      · obtain ⟨piece, hpiece, hin⟩ := ih hmem
        rw [hsplit] at hpiece
        rcases List.mem_cons.mp hpiece with rfl | hpiece
        · exact ⟨d :: piece, List.mem_cons_self .., List.mem_cons_of_mem _ hin⟩
        · exact ⟨piece, List.mem_cons_of_mem _ hpiece, hin⟩

/-! ## The lines of a text put together from parts -/

/-- A character that does not belong to a line end stays. -/
theorem universalNewlines_cons {c : Char} (h : c ≠ '\r') (t : Text) :
    universalNewlines (c :: t) = c :: universalNewlines t := by
  rw [universalNewlines]
  · exact fun _ hc _ => h hc
  · exact fun hc => h hc

/-- A carriage return with no newline behind it ends a line. -/
theorem universalNewlines_return {t : Text} (h : t.head? ≠ some '\n') :
    universalNewlines ('\r' :: t) = '\n' :: universalNewlines t := by
  rw [universalNewlines]
  rintro v rfl
  exact h rfl

theorem universalNewlines_crlf (t : Text) :
    universalNewlines ('\r' :: '\n' :: t) = '\n' :: universalNewlines t := rfl

/-- What a line end is decides the cases of an induction. -/
@[elab_as_elim]
theorem universalNewlines_induction {motive : Text → Prop} (nil : motive [])
    (crlf : ∀ t, motive t → motive ('\r' :: '\n' :: t))
    (cr : ∀ t, t.head? ≠ some '\n' → motive t → motive ('\r' :: t))
    (cons : ∀ c t, c ≠ '\r' → motive t → motive (c :: t)) (t : Text) : motive t := by
  induction t using universalNewlines.induct with
  | case1 => exact nil
  | case2 t ih => exact crlf t ih
  | case3 t hnot ih =>
    apply cr t _ ih
    intro hhead
    obtain ⟨v, rfl⟩ := List.head?_eq_some_iff.mp hhead
    exact hnot v rfl
  | case4 c t h1 h2 ih => exact cons c t (fun hc => h2 hc) ih

/-- A newline behind `a` starts anew; a carriage return that `a` ends in belongs to it. -/
theorem universalNewlines_append_newline (a : Text) :
    ∃ t, (universalNewlines a = t ∨ universalNewlines a = t ++ ['\n']) ∧
      ∀ b, universalNewlines (a ++ '\n' :: b) = t ++ '\n' :: universalNewlines b := by
  induction a using universalNewlines_induction with
  | nil => exact ⟨[], .inl rfl, fun b => universalNewlines_cons (by decide) b⟩
  | crlf u ih =>
    obtain ⟨t, hu, ht⟩ := ih
    refine ⟨'\n' :: t, ?_, fun b => ?_⟩
    · rw [universalNewlines_crlf]
      simpa only [List.cons_append, List.cons.injEq, true_and] using hu
    · rw [List.cons_append, List.cons_append, universalNewlines_crlf, ht, List.cons_append]
  | cr u hhead ih =>
    cases u with
    | nil => exact ⟨[], .inr rfl, fun b => rfl⟩
    | cons c u =>
      obtain ⟨t, hu, ht⟩ := ih
      refine ⟨'\n' :: t, ?_, fun b => ?_⟩
      · rw [universalNewlines_return hhead]
        simpa only [List.cons_append, List.cons.injEq, true_and] using hu
      · have hhead' : (c :: u ++ '\n' :: b).head? ≠ some '\n' := hhead
        rw [List.cons_append, universalNewlines_return hhead', ht, List.cons_append]
  | cons c u hc ih =>
    obtain ⟨t, hu, ht⟩ := ih
    refine ⟨c :: t, ?_, fun b => ?_⟩
    · rw [universalNewlines_cons hc]
      simpa only [List.cons_append, List.cons.injEq, true_and] using hu
    · rw [List.cons_append, universalNewlines_cons hc, ht, List.cons_append]

theorem mem_of_mem_universalNewlines {c : Char} (hc : c ≠ '\n') {t : Text}
    (h : c ∈ universalNewlines t) : c ∈ t := by
  induction t using universalNewlines_induction with
  | nil => nomatch h
  | crlf u ih =>
    have hmem := (List.mem_cons.mp h).resolve_left hc
    exact List.mem_cons_of_mem _ (List.mem_cons_of_mem _ (ih hmem))
  | cr u hhead ih =>
    rw [universalNewlines_return hhead] at h
    exact List.mem_cons_of_mem _ (ih ((List.mem_cons.mp h).resolve_left hc))
  | cons d u hd ih =>
    rw [universalNewlines_cons hd] at h
    rcases List.mem_cons.mp h with rfl | hmem
    · exact List.mem_cons_self ..
    · exact List.mem_cons_of_mem _ (ih hmem)

theorem mem_of_mem_splitlines {c : Char} (hc : c ≠ '\n') {t line : Text}
    (h : line ∈ splitlines t) (hmem : c ∈ line) : c ∈ t :=
  mem_of_mem_universalNewlines hc (mem_of_mem_splitOnP h hmem).1

section Lines

variable {β : Type*} {p : Text → Option β}

/-- A reader that skips blank lines reads two texts with a newline between them one after the
other. -/
theorem filterMap_pyLines_append (hp : p [] = none) (a b : Text) :
    (pyLines (a ++ '\n' :: b)).filterMap p =
      (pyLines a).filterMap p ++ (pyLines b).filterMap p := by
  unfold pyLines
  obtain ⟨t, ha | ha, h⟩ := universalNewlines_append_newline a
  · rw [h, ha, List.splitOn_append_cons_self, List.filterMap_append]
  · rw [h, ha, List.splitOn_append_cons_self, List.splitOn_append_cons_self, List.splitOn_nil]
    simp [hp]

theorem filterMap_pyLines_nil (hp : p [] = none) : (pyLines []).filterMap p = [] := by
  have hlines : pyLines [] = [[]] := rfl
  simp [hlines, hp]

/-- Every line of the text is ended. -/
def Terminated (t : Text) : Prop := t = [] ∨ ∃ u, t = u ++ ['\n']

theorem filterMap_pyLines_terminated (hp : p [] = none) {a : Text} (ha : Terminated a) (b : Text) :
    (pyLines (a ++ b)).filterMap p = (pyLines a).filterMap p ++ (pyLines b).filterMap p := by
  rcases ha with rfl | ⟨u, rfl⟩
  · rw [List.nil_append, filterMap_pyLines_nil hp, List.nil_append]
  · rw [List.append_assoc, List.singleton_append, filterMap_pyLines_append hp,
      filterMap_pyLines_append hp, filterMap_pyLines_nil hp, List.append_nil]

end Lines

/-- A text without line ends. -/
def SingleLine (t : Text) : Prop := '\n' ∉ t ∧ '\r' ∉ t

theorem universalNewlines_of_singleLine {t : Text} (h : '\r' ∉ t) : universalNewlines t = t := by
  induction t with
  | nil => rfl
  | cons c t ih =>
    have hc : c ≠ '\r' := fun hc => h (by simp [hc])
    rw [universalNewlines_cons hc, ih fun ht => h (List.mem_cons_of_mem _ ht)]

theorem pyLines_of_singleLine {t : Text} (h : SingleLine t) : pyLines t = [t] := by
  rw [pyLines, universalNewlines_of_singleLine h.2, List.splitOn_eq_singleton h.1]

theorem singleLine_of_subset {t u : Text} (h : t ⊆ u) (hu : SingleLine u) : SingleLine t :=
  ⟨fun hmem => hu.1 (h hmem), fun hmem => hu.2 (h hmem)⟩

theorem singleLine_append {a b : Text} {sep : Char} (ha : SingleLine a) (hb : SingleLine b)
    (hn : sep ≠ '\n') (hr : sep ≠ '\r') : SingleLine (a ++ sep :: b) := by
  obtain ⟨⟨ha1, ha2⟩, ⟨hb1, hb2⟩⟩ := And.intro ha hb
  constructor <;> simp [ha1, ha2, hb1, hb2, hn.symm, hr.symm]

/-- Text mode leaves no carriage return. -/
theorem return_not_mem_universalNewlines (t : Text) : '\r' ∉ universalNewlines t := by
  induction t using universalNewlines_induction with
  | nil => exact List.not_mem_nil
  | crlf t ih => simpa [universalNewlines_crlf] using ih
  | cr t hhead ih => simpa [universalNewlines_return hhead] using ih
  | cons c t hc ih =>
    rw [universalNewlines_cons hc]
    simpa [ih] using Ne.symm hc

theorem singleLine_of_mem_pyLines {file raw : Text} (h : raw ∈ pyLines file) : SingleLine raw :=
  ⟨not_mem_of_mem_splitOn h, fun hmem =>
    return_not_mem_universalNewlines file (mem_of_mem_splitOn h hmem).1⟩

/-- What does not start with a newline does not touch the lines before. -/
theorem universalNewlines_append_of_head (a : Text) {b : Text} (hb : b.head? ≠ some '\n') :
    universalNewlines (a ++ b) = universalNewlines a ++ universalNewlines b := by
  induction a using universalNewlines_induction with
  | nil => rfl
  | crlf t ih =>
    rw [List.cons_append, List.cons_append, universalNewlines_crlf, universalNewlines_crlf, ih,
      List.cons_append]
  | cr t hhead ih =>
    have hhead' : (t ++ b).head? ≠ some '\n' := by
      cases t with
      | nil => exact hb
      | cons c t => exact hhead
    rw [List.cons_append, universalNewlines_return hhead', universalNewlines_return hhead, ih,
      List.cons_append]
  | cons c t hc ih =>
    rw [List.cons_append, universalNewlines_cons hc, universalNewlines_cons hc, ih,
      List.cons_append]

theorem universalNewlines_singleLine_append {a : Text} (ha : SingleLine a) (b : Text) :
    universalNewlines (a ++ b) = a ++ universalNewlines b := by
  induction a with
  | nil => rfl
  | cons c a ih =>
    have hc : c ≠ '\r' := fun heq => ha.2 (heq ▸ List.mem_cons_self ..)
    rw [List.cons_append, universalNewlines_cons hc,
      ih (singleLine_of_subset (List.subset_cons_self ..) ha), List.cons_append]

/-- Lengthening the first line of a text. -/
theorem pyLines_append_head (b : Text) :
    ∃ first lines, ∀ a, SingleLine a → pyLines (a ++ b) = (a ++ first) :: lines := by
  obtain ⟨first, lines, hsplit⟩ := splitOn_append_head '\n' (universalNewlines b)
  refine ⟨first, lines, fun a ha => ?_⟩
  rw [pyLines, universalNewlines_singleLine_append ha, hsplit a ha.1]

/-- Lengthening the last line before a newline. -/
theorem pyLines_append_tail (a : Text) :
    ∃ lines last, ∀ t, SingleLine t → t ≠ [] → ∀ b,
      pyLines (a ++ (t ++ '\n' :: b)) = lines ++ (last ++ t) :: pyLines b := by
  obtain ⟨lines, last, hsplit⟩ := splitOn_append_tail '\n' (universalNewlines a)
  refine ⟨lines, last, fun t ht hne b => ?_⟩
  have hhead : (t ++ '\n' :: b).head? ≠ some '\n' := by
    obtain ⟨c, t, rfl⟩ := List.exists_cons_of_ne_nil hne
    simpa using fun heq : c = '\n' => ht.1 (heq ▸ List.mem_cons_self ..)
  have hnewline : universalNewlines ('\n' :: b) = '\n' :: universalNewlines b :=
    universalNewlines_cons (by decide) b
  rw [pyLines, universalNewlines_append_of_head a hhead, universalNewlines_singleLine_append ht,
    hnewline, ← List.append_assoc, List.splitOn_append_cons_self, hsplit t ht.1, List.append_assoc]
  rfl

/-- A first line and the lines behind it. -/
theorem pyLines_cons {line : Text} (h : SingleLine line) (b : Text) :
    pyLines (line ++ '\n' :: b) = line :: pyLines b := by
  rw [pyLines, universalNewlines_singleLine_append h, universalNewlines_cons (by decide),
    List.splitOn_append_cons_self, List.splitOn_eq_singleton h.1]
  rfl

/-- What stands before a newline makes its own lines, whatever follows. -/
theorem pyLines_append_newline (a : Text) :
    ∃ lines, ∀ b, pyLines (a ++ '\n' :: b) = lines ++ pyLines b := by
  obtain ⟨t, -, ht⟩ := universalNewlines_append_newline a
  exact ⟨t.splitOn '\n', fun b => by rw [pyLines, ht, List.splitOn_append_cons_self, pyLines]⟩

end ProxyGateway.Lang
