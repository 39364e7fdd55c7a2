/-
# ProxyGateway.Smart.Categories — what becomes of a policy that is a built-in word

Three words stand for a blocked connection in `resolve_target`, and three for a direct one.
`category_of` reads the policies of an imported list with tables of its own, and only when the setting
`PGW_KEEP_CATEGORIES` names the categories to keep.  Its tables know `dir` and `direct`, and `reject` as
a part of a word; they know neither `block` nor `direct-out`, which then become `Proxy`.

`category_keepsBuiltin_iff` says that these two words are the only ones to go wrong, and when.
-/
import ProxyGateway.Smart.Import
import ProxyGateway.Smart.Mihomo

namespace ProxyGateway.Smart

open ProxyGateway.Lang

/-! ## Words -/

/-- **`Importer.Lowers`** — what is assumed of `str.lower` and `\w`: ASCII is lowered letter by letter,
and what becomes a small letter is a word character. -/
structure Importer.Lowers (I : Importer) : Prop where
  ascii : ∀ t, (∀ c ∈ t, c.toNat < 128) → I.lower t = t.map Char.toLower
  word : ∀ c t d u, I.lower (c :: t) = d :: u → d.isLower = true → I.isWord c = true

/-- The words of `resolve_target`. -/
def directWords : List Text := [lit "direct", lit "direct-out", lit "dir"]

def rejectWords : List Text := [lit "block", lit "reject", lit "reject-drop"]

/-- The parts of words that `category_of` takes for blocked. -/
def blockedParts : List Text :=
  [lit "advert", lit "hijack", lit "privacy", lit "reject", lit "广告", lit "malware"]

theorem builtin_eq_some_iff {H : Host} {t : Text} {target : Target} :
    H.builtin t = some target ↔
      (H.lower t ∈ directWords ∧ target = .direct) ∨
        (H.lower t ∈ rejectWords ∧ target = .reject) := by
  have hdisjoint : ∀ w ∈ rejectWords, w ∉ directWords := by decide
  unfold Host.builtin
  show (if H.lower t ∈ directWords then _ else if H.lower t ∈ rejectWords then _ else _) = _ ↔ _
  by_cases hdirect : H.lower t ∈ directWords
  · have hreject : H.lower t ∉ rejectWords := fun h => hdisjoint _ h hdirect
    simp [hdirect, hreject, eq_comm]
  · by_cases hreject : H.lower t ∈ rejectWords
    · simp [hdirect, hreject, eq_comm]
    · simp [hdirect, hreject]

theorem resolveTarget_of_builtin {H : Host} {p : Text} {target : Target}
    (h : H.builtin (strip p) = some target) (E : Exits) (m : PolicyMap) :
    H.resolveTarget E m p = target := by
  unfold Host.resolveTarget
  simp only [h]

/-- A text that lacks a letter of each part has none of them in it. -/
theorem no_blockedPart {t : Text} (h : (blockedParts.all fun w => w.any (!t.contains ·)) = true) :
    blockedParts.any (· <:+: t) = false := by
  rw [List.any_eq_false]
  intro w hw hin
  obtain ⟨c, hc, hnot⟩ := List.any_eq_true.mp (List.all_eq_true.mp h w hw)
  have hmem : c ∈ t := (of_decide_eq_true hin).subset hc
  simp [hmem] at hnot

theorem stripQuotes_of_not_mem {t : Text} (h : '"' ∉ t) : stripQuotes t = t := by
  have hfront : t.dropWhile (· = '"') = t := by
    rw [List.dropWhile_eq_self_iff]
    intro hlen hhead
    exact h (of_decide_eq_true hhead ▸ List.getElem_mem hlen)
  rw [stripQuotes, hfront, List.rdropWhile_eq_self_iff]
  intro hne hlast
  exact h (of_decide_eq_true hlast ▸ List.getLast_mem hne)

/-! ## The two tables -/

section Categories

variable {I : Importer} {p : Text}

/-- A built-in word has no marks in front of it to lose. -/
theorem normCategory_of_builtin (hI : I.Lowers) (hquote : '"' ∉ p)
    (hword : I.lower (strip p) ∈ directWords ++ rejectWords) : I.normCategory p = strip p := by
  have hstart : ∀ w ∈ directWords ++ rejectWords, (w.head?.any Char.isLower) = true := by decide
  have hunquoted : stripQuotes (strip p) = strip p :=
    stripQuotes_of_not_mem fun h => hquote (mem_of_mem_strip h)
  have hletter := hstart _ hword
  cases hstrip : strip p with
  | nil =>
    rw [hstrip, hI.ascii [] (fun _ h => nomatch h)] at hletter
    nomatch hletter
  | cons c t =>
    rw [hstrip] at hletter
    have hc : I.isWord c = true := by
      cases hlow : I.lower (c :: t) with
      | nil =>
        rw [hlow] at hletter
        nomatch hletter
      | cons d u =>
        rw [hlow] at hletter
        exact hI.word c t d u hlow hletter
    unfold Importer.normCategory
    simp only [hunquoted, strip_strip]
    rw [hstrip, List.dropWhile_cons_of_neg (by simp [hc]), ← hstrip, strip_strip, hstrip]
    exact if_neg (List.cons_ne_nil _ _)

/-- What is left of a category that is neither direct by the setting nor kept. -/
theorem categoryOf_of_not_keeps (hdirect : I.lower (I.normCategory p) ∉ I.direct)
    (hkeep : ¬ (I.keep = [] ∨ I.normCategory p ∈ I.keep)) :
    I.categoryOf p =
      if I.lower (I.normCategory p) ∈
          [lit "dir", lit "direct", lit "china", lit "lan", lit "domestic"] then lit "direct"
      else if blockedParts.any (· <:+: I.lower (I.normCategory p)) then lit "block"
      else lit "Proxy" := by
  unfold Importer.categoryOf
  simp only [if_neg hdirect, if_neg hkeep]
  rfl

theorem resolveTarget_lit (hI : I.Lowers) {t : Text} {target : Target}
    (hascii : ∀ c ∈ strip t, c.toNat < 128)
    (h : ((strip t).map Char.toLower ∈ directWords ∧ target = .direct) ∨
      ((strip t).map Char.toLower ∈ rejectWords ∧ target = .reject)) (E : Exits) (m : PolicyMap) :
    I.resolveTarget E m t = target := by
  refine resolveTarget_of_builtin (builtin_eq_some_iff.mpr ?_) E m
  rw [hI.ascii _ hascii]
  exact h

/-- Without a policy map the category `Proxy` is an exit. -/
theorem resolveTarget_proxy (hI : I.Lowers) (E : Exits) :
    ∃ name, I.resolveTarget E [] (lit "Proxy") = .exit name := by
  have hlower : I.lower (lit "Proxy") = lit "proxy" :=
    hI.ascii _ (List.all_iff_forall_prop.mp (by decide))
  have hnone : I.builtin (lit "Proxy") = none := by
    unfold Host.builtin
    rw [hlower]
    decide
  refine ⟨E.canonicalExitName I.toHost (lit "Proxy"), ?_⟩
  have hstrip : strip (lit "Proxy") = lit "Proxy" := by decide
  unfold Host.resolveTarget
  simp only [hstrip, hnone]
  rfl

/-- What `category_of` makes of each word when it is not kept. -/
theorem simplified_words : ∀ w ∈ directWords ++ rejectWords,
    (if w ∈ [lit "dir", lit "direct", lit "china", lit "lan", lit "domestic"] then lit "direct"
      else if blockedParts.any (· <:+: w) then lit "block" else lit "Proxy") =
    if w ∈ [lit "direct", lit "dir"] then lit "direct"
    else if w ∈ [lit "reject", lit "reject-drop"] then lit "block" else lit "Proxy" := by
  have hblock : blockedParts.any (· <:+: lit "block") = false := no_blockedPart (by decide)
  have hout : blockedParts.any (· <:+: lit "direct-out") = false := no_blockedPart (by decide)
  have hreject : ∀ t, lit "reject" <+: t → blockedParts.any (· <:+: t) = true := by
    intro t ht
    exact List.any_eq_true.mpr ⟨lit "reject", by decide, decide_eq_true ht.isInfix⟩
  intro w hw
  simp only [directWords, rejectWords, List.cons_append, List.nil_append, List.mem_cons,
    List.not_mem_nil, or_false] at hw
  rcases hw with rfl | rfl | rfl | rfl | rfl | rfl
  · rfl
  · rw [hout]
    rfl
  · rfl
  · rw [hblock]
    rfl
  · rw [hreject (lit "reject") ⟨[], rfl⟩]
    rfl
  · rw [hreject (lit "reject-drop") ⟨lit "-drop", rfl⟩]
    rfl

/-- A built-in word that is not kept. -/
theorem categoryOf_word (hI : I.Lowers) (hquote : '"' ∉ p)
    (hdirect : I.lower (I.normCategory p) ∉ I.direct)
    (hkeep : ¬ (I.keep = [] ∨ I.normCategory p ∈ I.keep))
    (hword : I.lower (strip p) ∈ directWords ++ rejectWords) :
    I.categoryOf p =
      if I.lower (strip p) ∈ [lit "direct", lit "dir"] then lit "direct"
      else if I.lower (strip p) ∈ [lit "reject", lit "reject-drop"] then lit "block"
      else lit "Proxy" := by
  rw [categoryOf_of_not_keeps hdirect hkeep, normCategory_of_builtin hI hquote hword]
  exact simplified_words _ hword

/-- **`category_keepsBuiltin_iff`** — a policy that the router takes for direct or blocked goes out as a
category that it takes for the same, exactly where it is kept, or is neither `block` nor
`direct-out`. -/
theorem category_keepsBuiltin_iff (hI : I.Lowers) (hquote : '"' ∉ p)
    (hdirect : I.lower (I.normCategory p) ∉ I.direct) :
    (∀ target, I.builtin (strip p) = some target →
        ∀ (E : Exits) (m : PolicyMap), I.resolveTarget E m (I.categoryOf p) = target) ↔
      I.keep = [] ∨ I.normCategory p ∈ I.keep ∨
        I.lower (strip p) ∉ [lit "block", lit "direct-out"] := by
  by_cases hword : I.lower (strip p) ∈ directWords ++ rejectWords
  swap
  · -- no built-in word, and so neither of the two
    have hnot : I.lower (strip p) ∉ [lit "block", lit "direct-out"] := by
      intro h
      exact hword ((by decide : [lit "block", lit "direct-out"] ⊆ directWords ++ rejectWords) h)
    refine ⟨fun _ => .inr (.inr hnot), fun _ target htarget => ?_⟩
    rcases builtin_eq_some_iff.mp htarget with ⟨hin, -⟩ | ⟨hin, -⟩
    · exact absurd (List.mem_append_left _ hin) hword
    · exact absurd (List.mem_append_right _ hin) hword
  have hnorm := normCategory_of_builtin hI hquote hword
  by_cases hkeep : I.keep = [] ∨ I.normCategory p ∈ I.keep
  · -- the category is the policy itself
    refine ⟨fun _ => hkeep.imp_right .inl, fun _ target htarget => ?_⟩
    have hcat : I.categoryOf p = strip p := by
      unfold Importer.categoryOf
      simp only [if_neg hdirect, if_pos hkeep]
      exact hnorm
    intro E m
    rw [hcat]
    exact resolveTarget_of_builtin (by rw [strip_strip]; exact htarget) E m
  · have hcat := categoryOf_word hI hquote hdirect hkeep hword
    constructor
    · intro hall
      refine .inr (.inr fun hin => ?_)
      have hproxy : I.categoryOf p = lit "Proxy" := by
        rw [hcat]
        generalize I.lower (strip p) = w at hin
        revert w
        decide
      obtain ⟨target, htarget⟩ : ∃ target, I.builtin (strip p) = some target := by
        rcases List.mem_append.mp hword with h | h
        · exact ⟨_, builtin_eq_some_iff.mpr (.inl ⟨h, rfl⟩)⟩
        · exact ⟨_, builtin_eq_some_iff.mpr (.inr ⟨h, rfl⟩)⟩
      obtain ⟨name, hname⟩ := resolveTarget_proxy hI ⟨[], []⟩
      rw [← hproxy, hall target htarget] at hname
      exact Host.builtin_ne_exit I.toHost (strip p) name (hname ▸ htarget)
    · rintro hcond target htarget E m
      have hnot : I.lower (strip p) ∉ [lit "block", lit "direct-out"] := by
        rcases hcond with h | h | h
        · exact absurd (.inl h) hkeep
        · exact absurd (.inr h) hkeep
        · exact h
      rw [hcat]
      rcases builtin_eq_some_iff.mp htarget with ⟨hin, rfl⟩ | ⟨hin, rfl⟩
      · have hdir : I.lower (strip p) ∈ [lit "direct", lit "dir"] := by
          generalize I.lower (strip p) = w at hin hnot
          revert w
          decide
        rw [if_pos hdir]
        exact resolveTarget_lit hI (List.all_iff_forall_prop.mp (by decide)) (by decide) E m
      · have hrej : I.lower (strip p) ∈ [lit "reject", lit "reject-drop"] ∧
            I.lower (strip p) ∉ [lit "direct", lit "dir"] := by
          generalize I.lower (strip p) = w at hin hnot
          revert w
          decide
        rw [if_neg hrej.2, if_pos hrej.1]
        exact resolveTarget_lit hI (List.all_iff_forall_prop.mp (by decide)) (by decide) E m

end Categories

/-! ## A setting that keeps one category -/

theorem isAlphanum_of_toLower {c : Char} (h : c.toLower.isLower = true) : c.isAlphanum = true := by
  rcases toLower_eq_self_or c with hsame | hupper
  · rw [hsame] at h
    exact Bool.or_eq_true_iff.mpr (.inl (Bool.or_eq_true_iff.mpr (.inr h)))
  · exact Bool.or_eq_true_iff.mpr (.inl (Bool.or_eq_true_iff.mpr (.inl (isUpper_iff.mpr hupper))))

/-- ASCII text, with `PGW_KEEP_CATEGORIES=AI`. -/
def keepsAi : Importer := { plainImporter with keepSetting := lit "AI" }

theorem lowers_keepsAi : keepsAi.Lowers where
  ascii := fun _ _ => rfl
  word := by
    rintro c t d u hlow hd
    obtain ⟨rfl, -⟩ := List.cons.inj hlow
    show (c.isAlphanum || c == '_') = true
    rw [isAlphanum_of_toLower hd, Bool.true_or]

theorem category_keepsBuiltin_reject :
    (∀ target, keepsAi.builtin (strip (lit "Reject")) = some target →
        ∀ (E : Exits) (m : PolicyMap),
          keepsAi.resolveTarget E m (keepsAi.categoryOf (lit "Reject")) = target) ↔
      keepsAi.keep = [] ∨ keepsAi.normCategory (lit "Reject") ∈ keepsAi.keep ∨
        keepsAi.lower (strip (lit "Reject")) ∉ [lit "block", lit "direct-out"] :=
  category_keepsBuiltin_iff lowers_keepsAi (by decide) (by decide)

/-- Blocked and direct traffic becomes proxied traffic. -/
theorem block_becomes_proxy :
    keepsAi.categoryOf (lit "block") = lit "Proxy" ∧
      keepsAi.categoryOf (lit "direct-out") = lit "Proxy" ∧
      ¬ ∀ (I : Importer) (p : Text), I.Lowers → '"' ∉ p →
        I.lower (I.normCategory p) ∉ I.direct →
        ∀ target, I.builtin (strip p) = some target →
          ∀ (E : Exits) (m : PolicyMap), I.resolveTarget E m (I.categoryOf p) = target := by
  have hblock : keepsAi.categoryOf (lit "block") = lit "Proxy" := by
    rw [categoryOf_word lowers_keepsAi (by decide) (by decide) (by decide) (by decide)]
    rfl
  have hout : keepsAi.categoryOf (lit "direct-out") = lit "Proxy" := by
    rw [categoryOf_word lowers_keepsAi (by decide) (by decide) (by decide) (by decide)]
    rfl
  refine ⟨hblock, hout, fun hclaim => ?_⟩
  have hreject := hclaim keepsAi (lit "block") lowers_keepsAi (by decide) (by decide) .reject
    (by decide) ⟨[], []⟩ []
  obtain ⟨name, hname⟩ := resolveTarget_proxy lowers_keepsAi ⟨[], []⟩
  rw [hblock, hname] at hreject
  nomatch hreject

end ProxyGateway.Smart
