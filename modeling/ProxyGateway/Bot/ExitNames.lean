/-
# ProxyGateway.Bot.ExitNames — the names that the bot derives for exits

`unique_exit_name` makes a name of the remark of a link: the words of the remark, joined by dashes and
cut to 16 characters, with a number where the name is taken (`slug`, `numbered`).  `add_exit` has to
take the name, and the kernel the device `pgw-<name>`, which may have 15 bytes.

The name is free, and `add_exit` takes it unless it is `smart`.  But 16 characters are too many for the
device: eleven bytes are left (`usable_iff`).
-/
import ProxyGateway.Bot.Handlers
import ProxyGateway.Exits.Selection
import ProxyGateway.Lang.Codecs
import ProxyGateway.Lang.Lines
import Mathlib.Data.List.Find

namespace ProxyGateway.Bot

open ProxyGateway.Lang ProxyGateway.Dns ProxyGateway.Exits.Selection

/-! ## What a name is for -/

section Names

variable (H : BotHost)

/-- **`BotHost.WordClass`** — `\w` has the digits and no spaces. -/
structure BotHost.WordClass : Prop where
  digit : ∀ c : Char, c.isDigit = true → H.isWord c = true
  space : ∀ c, isSpace c = true → H.isWord c = false

/-- The check of `add_exit`. -/
def BotHost.addExitTakes (name : Text) : Bool :=
  name ∉ [lit "local", lit "smart"] && H.isExitAddName name

/-- **`Usable`** — the name is free, `add_exit` takes it, and the device fits the kernel. -/
structure BotHost.Usable (existing : List Text) (name : Text) : Prop where
  fresh : name ∉ existing
  admitted : H.addExitTakes name = true
  device : utf8Length (iface name) ≤ 15

/-- The words of a text. -/
def BotHost.words (t : Text) : List Text := (t.splitOnP fun c => !H.isNameChar c).filter (· ≠ [])

/-- What a remark is made into: its words joined by dashes, without dashes and underscores around them,
16 characters at most. -/
def BotHost.slug (remark : Text) : Text :=
  (stripDashUnderscore (joinWith '-' (H.words (strip (H.unquote remark))))).take 16

end Names

/-- The name with number `i`. -/
def numbered (base : Text) (i : Nat) : Text :=
  base.take (16 - ('-' :: decimal i).length) ++ '-' :: decimal i

/-- The first number that is free. -/
structure FirstFree (existing : List Text) (base : Text) (i : Nat) : Prop where
  range : 2 ≤ i ∧ i < 100
  free : numbered base i ∉ existing
  taken : ∀ j, 2 ≤ j → j < i → numbered base j ∈ existing

/-- **`Short`** — the name, or the name with its number, has at most eleven bytes, and is not `smart`. -/
structure Short (existing : List Text) (base : Text) : Prop where
  plain : base ∉ existing → base ≠ lit "smart" ∧ utf8Length base ≤ 11
  suffixed : base ∈ existing → ∀ i, FirstFree existing base i → utf8Length (numbered base i) ≤ 11

/-! ## Cleaning -/

section Clean

variable {H : BotHost}

def isMark (c : Char) : Bool := c = '-' || c = '_'

theorem stripDashUnderscore_eq (t : Text) : stripDashUnderscore t = trimBy isMark t := rfl

/-- Words behind a dash each. -/
def glued (ws : List Text) : Text := ws.flatMap ('-' :: ·)

theorem joinWith_dash (w : Text) (ws : List Text) : joinWith '-' (w :: ws) = w ++ glued ws := by
  induction ws generalizing w with
  | nil => simp [joinWith, glued]
  | cons v ws ih =>
    have hcons : joinWith '-' (w :: v :: ws) = w ++ ('-' :: joinWith '-' (v :: ws)) := by
      simp [joinWith, List.intercalate]
    rw [hcons, ih]
    simp [glued]

theorem glued_eq {ws : List Text} (h : ws ≠ []) : glued ws = '-' :: joinWith '-' ws := by
  obtain ⟨w, ws, rfl⟩ := List.exists_cons_of_ne_nil h
  rw [joinWith_dash, glued, List.flatMap_cons]
  rfl

/-- The pieces behind the first one, without the empty ones. -/
def dashed (gap : Bool) : List Text → Text
  | [] => []
  | first :: rest =>
    let ws := rest.filter (· ≠ [])
    if gap && first = [] then joinWith '-' ws else first ++ glued ws

/-- **`dashRuns_eq`** — the substitution puts a dash between the words, and perhaps one at the end. -/
theorem dashRuns_eq (t : Text) (gap : Bool) : ∃ e : Text, (∀ c ∈ e, isMark c = true) ∧
    H.dashRuns gap t = dashed gap (t.splitOnP fun c => !H.isNameChar c) ++ e := by
  induction t generalizing gap with
  | nil => exact ⟨[], nofun, by cases gap <;> rfl⟩
  | cons c t ih =>
    obtain ⟨first, rest, hsplit⟩ := List.exists_cons_of_ne_nil
      (List.splitOnP_ne_nil (fun c => !H.isNameChar c) t)
    cases hc : H.isNameChar c with
    | true =>
      obtain ⟨e, hmarks, heq⟩ := ih false
      have hruns : H.dashRuns gap (c :: t) = c :: H.dashRuns false t := by
        rw [BotHost.dashRuns, if_pos hc]
      refine ⟨e, hmarks, ?_⟩
      rw [hruns, heq, List.splitOnP_cons_eq_if_modifyHead, if_neg (by simp [hc]), hsplit]
      simp [dashed]
    | false =>
      obtain ⟨e, hmarks, heq⟩ := ih true
      have hcut : (c :: t).splitOnP (fun c => !H.isNameChar c) = [] :: first :: rest := by
        rw [List.splitOnP_cons_eq_if_modifyHead, if_pos (by simp [hc]), hsplit]
      have hwords : dashed true (first :: rest) =
          joinWith '-' ((first :: rest).filter (· ≠ [])) := by
        by_cases hfirst : first = []
        · simp [dashed, hfirst]
        · rw [List.filter_cons_of_pos (by simpa using hfirst), joinWith_dash]
          simp [dashed, hfirst]
      rw [hsplit, hwords] at heq
      rw [hcut]
      cases gap with
      | true =>
        refine ⟨e, hmarks, ?_⟩
        have hruns : H.dashRuns true (c :: t) = H.dashRuns true t := by
          rw [BotHost.dashRuns, if_neg (by simp [hc]), if_pos rfl]
        rw [hruns, heq]
        rfl
      | false =>
        have hruns : H.dashRuns false (c :: t) = '-' :: H.dashRuns true t := by
          rw [BotHost.dashRuns, if_neg (by simp [hc]), if_neg Bool.false_ne_true]
        have hdashed : dashed false ([] :: first :: rest) =
          glued ((first :: rest).filter (· ≠ [])) := rfl
        rw [hruns, heq, hdashed]
        by_cases hnil : (first :: rest).filter (· ≠ []) = []
        · refine ⟨'-' :: e, ?_, ?_⟩
          · intro d hd
            rcases List.mem_cons.mp hd with rfl | hd
            · rfl
            · exact hmarks d hd
          · rw [hnil]
            rfl
        · refine ⟨e, hmarks, ?_⟩
          rw [glued_eq hnil]
          rfl

/-- **`stripped_dashRuns`** — what is left of it without the outer dashes. -/
theorem stripped_dashRuns (t : Text) :
    stripDashUnderscore (H.dashRuns false t) = stripDashUnderscore (joinWith '-' (H.words t)) := by
  obtain ⟨first, rest, hsplit⟩ := List.exists_cons_of_ne_nil
    (List.splitOnP_ne_nil (fun c => !H.isNameChar c) t)
  obtain ⟨e, hmarks, heq⟩ := dashRuns_eq (H := H) t false
  have hwords : H.words t = (first :: rest).filter (· ≠ []) := by rw [BotHost.words, hsplit]
  have hdashed : dashed false (first :: rest) = first ++ glued (rest.filter (· ≠ [])) := rfl
  rw [hsplit, hdashed] at heq
  rw [stripDashUnderscore_eq, stripDashUnderscore_eq, heq, hwords]
  by_cases hfirst : first = []
  · rw [hfirst, List.filter_cons_of_neg (by simp), List.nil_append]
    by_cases hnil : rest.filter (· ≠ []) = []
    · rw [hnil]
      exact trimBy_of_spaces hmarks
    · have hdash : ∀ c ∈ ['-'], isMark c = true := List.forall_mem_singleton.mpr rfl
      rw [glued_eq hnil]
      exact trimBy_append hdash hmarks _
  · rw [List.filter_cons_of_pos (by simpa using hfirst), joinWith_dash]
    exact trimBy_append (a := []) nofun hmarks _

theorem trimBy_subset {sp : Char → Bool} {t : Text} : trimBy sp t ⊆ t :=
  fun _ hc => (List.dropWhile_suffix _).subset ((List.rdropWhile_prefix _ _).subset hc)

/-- A trimmed text starts with no character that is trimmed. -/
theorem head_trimBy {sp : Char → Bool} {t : Text} {c : Char} (h : (trimBy sp t).head? = some c) :
    sp c = false := by
  have hprefix : trimBy sp t <+: t.dropWhile sp := List.rdropWhile_prefix _ _
  obtain ⟨u, hu⟩ := List.head?_eq_some_iff.mp h
  obtain ⟨v, hv⟩ := hprefix
  have hhead : (t.dropWhile sp).head? = some c := by
    rw [← hv, hu]
    rfl
  have hnot := List.head?_dropWhile_not sp t
  rw [hhead] at hnot
  simpa using hnot

/-- A text between two characters that are not trimmed stays. -/
theorem trimBy_eq_self {sp : Char → Bool} {c d : Char} {t : Text} (hc : sp c = false)
    (hd : sp d = false) (hhead : t.head? = some c) (hlast : t.getLast? = some d) :
    trimBy sp t = t := by
  obtain ⟨u, rfl⟩ := List.head?_eq_some_iff.mp hhead
  rw [trimBy, List.dropWhile_cons_of_neg (by rw [hc]; exact Bool.false_ne_true),
    List.rdropWhile_eq_self_iff]
  intro hne hsp
  rw [List.getLast?_eq_some_getLast hne] at hlast
  rw [Option.some.inj hlast, hd] at hsp
  cases hsp

variable (hH : H.WordClass)
include hH

theorem nameChar_of_digit {c : Char} (h : c.isDigit = true) : H.isNameChar c = true := by
  rw [BotHost.isNameChar, hH.digit c h]
  rfl

theorem newline_not_nameChar : H.isNameChar '\n' = false := by
  rw [BotHost.isNameChar, hH.space '\n' rfl]
  rfl

/-- A text of name characters passes for a name if it is not too long. -/
theorem isExitAddName_of {t : Text} (hchars : ∀ c ∈ t, H.isNameChar c = true) (hne : t ≠ [])
    (hlen : t.length ≤ 16) : H.isExitAddName t = true := by
  have hline : cutLast '\n' t = t := by
    refine if_neg fun hlast => ?_
    have hmem := hchars '\n' (List.mem_of_getLast? hlast)
    rw [newline_not_nameChar hH] at hmem
    nomatch hmem
  simp only [BotHost.isExitAddName, hline, Bool.and_eq_true, decide_eq_true_eq, List.all_eq_true]
  exact ⟨⟨hne, hlen⟩, hchars⟩

/-- The check of `add_exit`, as it is made where exits are added. -/
theorem validName_eq {F : Type} (L : Linux F) (hL : L.nameChar = H.isNameChar) (name : Text) :
    L.validName name = H.addExitTakes name := by
  unfold Linux.validName BotHost.addExitTakes BotHost.isExitAddName cutLast
  simp only [hL]
  congr 1
  by_cases hlast : name.getLast? = some '\n'
  · have hnot : name.all H.isNameChar = false := by
      rw [List.all_eq_false]
      exact ⟨'\n', List.mem_of_getLast? hlast, by simp [newline_not_nameChar hH]⟩
    simp [hlast, hnot]
  · simp [hlast]

omit hH in
theorem nameChar_of_mem_words {t : Text} {c : Char} (h : c ∈ joinWith '-' (H.words t)) :
    H.isNameChar c = true := by
  have hword : ∀ w ∈ H.words t, ∀ c ∈ w, H.isNameChar c = true := by
    intro w hw c hc
    have hpiece := (mem_of_mem_splitOnP (List.mem_of_mem_filter hw) hc).2
    simpa using hpiece
  have hdash : H.isNameChar '-' = true := by simp [BotHost.isNameChar]
  cases hws : H.words t with
  | nil =>
    rw [hws] at h
    nomatch h
  | cons w ws =>
    rw [hws] at hword
    rw [hws, joinWith_dash, List.mem_append, glued, List.mem_flatMap] at h
    rcases h with h | ⟨v, hv, h⟩
    · exact hword w (List.mem_cons_self ..) c h
    · rcases List.mem_cons.mp h with rfl | h
      · exact hdash
      · exact hword v (List.mem_cons_of_mem _ hv) c h

omit hH in
theorem nameChar_of_mem_slug {remark : Text} {c : Char} (h : c ∈ H.slug remark) :
    H.isNameChar c = true :=
  nameChar_of_mem_words (trimBy_subset (List.mem_of_mem_take h))

/-- **`cleanExitName_eq`** — a remark is cleaned to its slug, unless that is empty or `local`. -/
theorem cleanExitName_eq (remark : Text) : H.cleanExitName remark =
    if H.slug remark = [] ∨ H.slug remark = lit "local" then [] else H.slug remark := by
  have hslug : (stripDashUnderscore (H.dashRuns false (strip (H.unquote remark)))).take 16 =
    H.slug remark := by rw [stripped_dashRuns, BotHost.slug]
  unfold BotHost.cleanExitName
  simp only [hslug]
  by_cases hnil : H.slug remark = []
  · rw [if_pos (.inl hnil), if_pos (.inl hnil)]
  by_cases hlocal : H.slug remark = lit "local"
  · rw [if_pos (.inr (.inl hlocal)), if_pos (.inr hlocal)]
  have hname : H.isExitAddName (H.slug remark) = true :=
    isExitAddName_of hH (fun c hc => nameChar_of_mem_slug hc) hnil (List.length_take_le _ _)
  rw [if_neg, if_neg]
  · exact fun h => h.elim hnil hlocal
  · rintro (h | h | h)
    · exact hnil h
    · exact hlocal h
    · rw [hname] at h
      nomatch h

end Clean

/-! ## Numbering -/

section Number

variable {H : BotHost} {remark : Text} {existing : List Text}

theorem head_slug {c : Char} (h : (H.slug remark).head? = some c) : isMark c = false := by
  obtain ⟨u, hu⟩ := List.head?_eq_some_iff.mp h
  have hprefix : c :: u <+: trimBy isMark (joinWith '-' (H.words (strip (H.unquote remark)))) := by
    rw [← hu]
    exact List.take_prefix _ _
  obtain ⟨v, hv⟩ := hprefix
  exact head_trimBy (by rw [← hv]; rfl)

theorem decimal_ne_nil (n : Nat) : decimal n ≠ [] := Nat.toDigits_ne_nil

theorem getLast?_numbered (base : Text) (i : Nat) :
    ∃ d, (numbered base i).getLast? = some d ∧ d.isDigit = true := by
  have hne := decimal_ne_nil i
  refine ⟨(decimal i).getLast hne, ?_, decimal_digits i _ (List.getLast_mem hne)⟩
  rw [numbered, List.getLast?_append_of_ne_nil _ (List.cons_ne_nil _ _), List.getLast?_cons,
    List.getLast?_eq_some_getLast hne]
  rfl

/-- The numbers have one or two digits. -/
theorem length_decimal_le {i : Nat} (h : i < 100) : (decimal i).length ≤ 2 := by
  have hall : ∀ i : Fin 100, (decimal i.val).length ≤ 2 := by decide
  exact hall ⟨i, h⟩

theorem length_numbered {i : Nat} (h : i < 100) (base : Text) : (numbered base i).length ≤ 16 := by
  have hdigits := length_decimal_le h
  have htake := List.length_take_le (16 - ('-' :: decimal i).length) base
  rw [numbered, List.length_append]
  rw [List.length_cons] at htake ⊢
  omega

/-- A number is not stripped off again. -/
theorem stripDashUnderscore_numbered {i : Nat} (hi : i < 100) (hne : H.slug remark ≠ []) :
    stripDashUnderscore (numbered (H.slug remark) i) = numbered (H.slug remark) i := by
  obtain ⟨c, u, hu⟩ := List.exists_cons_of_ne_nil hne
  have hlast : ∀ {d : Char}, d.isDigit = true → isMark d = false := by
    intro d hd
    by_contra hmark
    rw [Bool.not_eq_false, isMark, Bool.or_eq_true, decide_eq_true_eq, decide_eq_true_eq] at hmark
    rcases hmark with rfl | rfl
    · nomatch hd
    · nomatch hd
  obtain ⟨d, hd, hdigit⟩ := getLast?_numbered (H.slug remark) i
  have hhead : isMark c = false := head_slug (congrArg List.head? hu)
  refine trimBy_eq_self (c := c) hhead (hlast hdigit) ?_ hd
  have hroom : ∃ n, 16 - ('-' :: decimal i).length = n + 1 := by
    have hdigits := length_decimal_le hi
    exact ⟨15 - ('-' :: decimal i).length, by rw [List.length_cons]; omega⟩
  obtain ⟨n, hn⟩ := hroom
  rw [numbered, hn, hu]
  rfl

variable (hH : H.WordClass)
include hH

theorem isExitAddName_numbered {i : Nat} (hi : i < 100) :
    H.isExitAddName (numbered (H.slug remark) i) = true := by
  refine isExitAddName_of hH (fun c hc => ?_) (by simp [numbered]) (length_numbered hi _)
  rcases List.mem_append.mp hc with hc | hc
  · exact nameChar_of_mem_slug (List.mem_of_mem_take hc)
  · rcases List.mem_cons.mp hc with rfl | hc
    · simp [BotHost.isNameChar]
    · exact nameChar_of_digit hH (decimal_digits i c hc)

/-- **`uniqueExitName_taken`** — where the slug is taken, the first free number decides. -/
theorem uniqueExitName_taken (hne : H.slug remark ≠ []) (hlocal : H.slug remark ≠ lit "local")
    (htaken : H.slug remark ∈ existing) (name : Text) :
    (H.uniqueExitName existing remark = name ∧ name ≠ []) ↔
      ∃ i, FirstFree existing (H.slug remark) i ∧ name = numbered (H.slug remark) i := by
  have hclean : H.cleanExitName remark = H.slug remark := by
    rw [cleanExitName_eq hH, if_neg]
    exact fun h => h.elim hne hlocal
  have hpick : H.uniqueExitName existing remark =
      (((List.range' 2 98).find? fun i => numbered (H.slug remark) i ∉ existing).map
        (numbered (H.slug remark))).getD [] := by
    unfold BotHost.uniqueExitName
    simp only [hclean]
    rw [if_neg hne, if_neg (not_not.mpr htaken), List.find?_map]
    have hsame : ∀ i ∈ List.range' 2 98,
        stripDashUnderscore ((H.slug remark).take (16 - ('-' :: decimal i).length) ++
          '-' :: decimal i) = numbered (H.slug remark) i := by
      intro i hi
      exact stripDashUnderscore_numbered (by rw [List.mem_range'_1] at hi; omega) hne
    have hfind : ((List.range' 2 98).find? ((fun cand : Text =>
        cand ≠ [] && cand ∉ existing && H.isExitAddName cand) ∘ fun i : Nat =>
          stripDashUnderscore ((H.slug remark).take (16 - ('-' :: decimal i).length) ++
            '-' :: decimal i))) =
        (List.range' 2 98).find? fun i => numbered (H.slug remark) i ∉ existing := by
      refine List.find?_congr fun i hi => ?_
      have hlt : i < 100 := by rw [List.mem_range'_1] at hi; omega
      have hnonempty : numbered (H.slug remark) i ≠ [] := by simp [numbered]
      rw [Function.comp_apply, hsame i hi, isExitAddName_numbered hH hlt]
      simp [hnonempty]
    rw [hfind]
    cases hfound : (List.range' 2 98).find? fun i => numbered (H.slug remark) i ∉ existing with
    | none => rfl
    | some i => exact congrArg (fun name => (some name).getD []) (hsame i (List.mem_of_find?_eq_some hfound))
  have hfree : ∀ i, ((List.range' 2 98).find? fun i => numbered (H.slug remark) i ∉ existing) =
      some i ↔ FirstFree existing (H.slug remark) i := by
    intro i
    rw [List.find?_range'_eq_some, List.mem_range'_1]
    simp only [decide_eq_true_eq, Bool.not_eq_true', decide_eq_false_iff_not, not_not]
    constructor
    · rintro ⟨hnot, hrange, hbefore⟩
      exact ⟨⟨hrange.1, by omega⟩, hnot, hbefore⟩
    · intro hfirst
      exact ⟨hfirst.free, ⟨hfirst.range.1, by have := hfirst.range.2; omega⟩, hfirst.taken⟩
  rw [hpick]
  constructor
  · rintro ⟨rfl, hname⟩
    cases hfound : (List.range' 2 98).find? fun i => numbered (H.slug remark) i ∉ existing with
    | none =>
      rw [hfound] at hname
      exact absurd rfl hname
    | some i => exact ⟨i, (hfree i).mp hfound, rfl⟩
  · rintro ⟨i, hi, rfl⟩
    rw [(hfree i).mpr hi]
    exact ⟨rfl, by simp [numbered]⟩

theorem uniqueExitName_free (hne : H.slug remark ≠ []) (hlocal : H.slug remark ≠ lit "local")
    (hfree : H.slug remark ∉ existing) : H.uniqueExitName existing remark = H.slug remark := by
  have hclean : H.cleanExitName remark = H.slug remark := by
    rw [cleanExitName_eq hH, if_neg]
    exact fun h => h.elim hne hlocal
  unfold BotHost.uniqueExitName
  simp only [hclean]
  rw [if_neg hne, if_pos hfree]

theorem uniqueExitName_nil (h : H.slug remark = [] ∨ H.slug remark = lit "local") :
    H.uniqueExitName existing remark = [] := by
  unfold BotHost.uniqueExitName
  simp only [cleanExitName_eq hH, if_pos h, if_true]

omit hH in
/-- What `add_exit` and the kernel ask of a name that the bot may derive. -/
theorem usable_of_name {name : Text} (hfree : name ∉ existing) (hlocal : name ≠ lit "local")
    (hname : H.isExitAddName name = true) :
    H.Usable existing name ↔ name ≠ lit "smart" ∧ utf8Length name ≤ 11 := by
  have hdevice : utf8Length (iface name) = 4 + utf8Length name := utf8Length_append _ _
  have htakes : H.addExitTakes name = true ↔ name ≠ lit "smart" := by
    simp [BotHost.addExitTakes, hname, hlocal]
  constructor
  · rintro ⟨-, hadmitted, hfits⟩
    exact ⟨htakes.mp hadmitted, by omega⟩
  · rintro ⟨hsmart, hfits⟩
    exact ⟨hfree, htakes.mpr hsmart, by omega⟩

/-- **`usable_iff`** — a derived name can be used if and only if its slug, or the slug with its number,
is short, and is not `smart`. -/
theorem usable_iff (existing : List Text) (remark : Text) :
    (H.uniqueExitName existing remark ≠ [] →
        H.Usable existing (H.uniqueExitName existing remark)) ↔
      (H.slug remark ≠ [] → H.slug remark ≠ lit "local" → Short existing (H.slug remark)) := by
  by_cases hne : H.slug remark = []
  · exact iff_of_true (fun h => absurd (uniqueExitName_nil hH (.inl hne)) h) fun h => absurd hne h
  by_cases hlocal : H.slug remark = lit "local"
  · exact iff_of_true (fun h => absurd (uniqueExitName_nil hH (.inr hlocal)) h)
      fun _ h => absurd hlocal h
  simp only [hne, hlocal, ne_eq, not_false_eq_true, true_implies]
  by_cases htaken : H.slug remark ∈ existing
  · have hnumber : ∀ i, FirstFree existing (H.slug remark) i →
        (H.Usable existing (numbered (H.slug remark) i) ↔
          utf8Length (numbered (H.slug remark) i) ≤ 11) := by
      intro i hi
      obtain ⟨d, hd, hdigit⟩ := getLast?_numbered (H.slug remark) i
      -- the reserved names do not end in a digit
      have hword : ∀ word : Text, word.getLast?.any Char.isDigit = false →
          numbered (H.slug remark) i ≠ word := by
        rintro word hword rfl
        rw [hd, Option.any_some, hdigit] at hword
        nomatch hword
      rw [usable_of_name hi.free (hword _ (by decide)) (isExitAddName_numbered hH hi.range.2)]
      exact and_iff_right (hword _ (by decide))
    constructor
    · intro husable
      refine ⟨fun hfree => absurd htaken hfree, fun _ i hi => (hnumber i hi).mp ?_⟩
      obtain ⟨hname, hnonempty⟩ := (uniqueExitName_taken hH hne hlocal htaken _).mpr ⟨i, hi, rfl⟩
      rw [hname] at husable
      exact husable hnonempty
    · intro hshort hnonempty
      obtain ⟨i, hi, hname⟩ := (uniqueExitName_taken hH hne hlocal htaken _).mp ⟨rfl, hnonempty⟩
      rw [hname]
      exact (hnumber i hi).mpr (hshort.suffixed htaken i hi)
  · have hname : H.isExitAddName (H.slug remark) = true :=
      isExitAddName_of hH (fun c hc => nameChar_of_mem_slug hc) hne (List.length_take_le _ _)
    rw [uniqueExitName_free hH hne hlocal htaken, usable_of_name htaken hlocal hname]
    constructor
    · exact fun h => ⟨fun _ => h hne, fun h => absurd h htaken⟩
    · exact fun h _ => h.plain htaken

end Number

/-! ## Two remarks -/

theorem wordClass_plainBot : plainBot.WordClass where
  digit c h := by
    show (c.isAlphanum || c == '_') = true
    rw [Char.isAlphanum, h, Bool.or_true, Bool.true_or]
  space c h := by
    show (c.isAlphanum || c == '_') = false
    simp only [isSpace, Bool.or_eq_true, Bool.and_eq_true, decide_eq_true_eq, beq_iff_eq] at h
    by_contra hword
    rw [Bool.not_eq_false, Bool.or_eq_true, beq_iff_eq] at hword
    rcases hword with hword | rfl
    · have hrange := toNat_of_isAlphanum hword
      omega
    · exact absurd h (by decide)

/-- `hk 01` becomes `hk-01`. -/
theorem usable_hk :
    (plainBot.uniqueExitName [lit "local", lit "us"] (lit "hk 01") ≠ [] →
        plainBot.Usable [lit "local", lit "us"]
          (plainBot.uniqueExitName [lit "local", lit "us"] (lit "hk 01"))) ↔
      (plainBot.slug (lit "hk 01") ≠ [] → plainBot.slug (lit "hk 01") ≠ lit "local" →
        Short [lit "local", lit "us"] (plainBot.slug (lit "hk 01"))) :=
  usable_iff wordClass_plainBot _ _

/-- A remark of two Chinese words makes a device name of 19 bytes. -/
theorem long_device_name :
    ¬ ∀ (H : BotHost) (existing : List Text) (remark : Text), H.WordClass →
      H.uniqueExitName existing remark ≠ [] →
      H.Usable existing (H.uniqueExitName existing remark) := by
  intro hclaim
  have hname : plainBot.uniqueExitName [lit "local"] (lit "香港 专线 1") = lit "香港-专线-1" := by decide
  have husable := hclaim plainBot [lit "local"] (lit "香港 专线 1") wordClass_plainBot
    (by rw [hname]; decide)
  rw [hname] at husable
  exact absurd husable.device (by decide)

end ProxyGateway.Bot
