/-
# ProxyGateway.Smart.BadLines — what one line does to the import of the others

The main loop of `rules-import.py` reads a list line by line and keeps nothing of one line for the next
but the last `FINAL`.  So the rules of two lists, one behind the other, should be those of the first and
then those of the second.  But all output is written at the end, and `parse_logical` looks for a
parenthesis with `line.index`, which raises where there is none: an `OR` without a parenthesis loses
every rule of the file (`bad_or_spoils_import`).

No other line does that (`readLine_eq_none_iff`), and `import_followedBy_iff` says that the import of two
lists is that of their parts exactly where neither has such a line.
-/
import ProxyGateway.Smart.Import

namespace ProxyGateway.Smart

open ProxyGateway.Lang

/-! ## Two lists -/

/-- The lines of `A` and then those of `B`. -/
def followedBy (A B : Text) : Text :=
  if A = [] ∨ A.getLast? = some '\n' then A ++ B else A ++ '\n' :: B

theorem filterMap_pyLines_followedBy {β : Type*} {p : Text → Option β} (hp : p [] = none)
    (A B : Text) : (pyLines (followedBy A B)).filterMap p =
      (pyLines A).filterMap p ++ (pyLines B).filterMap p := by
  unfold followedBy
  split
  · next hend =>
    refine filterMap_pyLines_terminated hp ?_ B
    rcases hend with hnil | hlast
    · exact .inl hnil
    · exact .inr ⟨_, (List.dropLast_append_getLast? _ hlast).symm⟩
  · exact filterMap_pyLines_append hp A B

/-- All lines are read, one by one. -/
theorem mapM_eq_some_iff {α β : Type*} {f : α → Option β} {l : List α} {out : List β} :
    l.mapM f = some out ↔ l.map f = out.map some := by
  induction l generalizing out with
  | nil =>
    rw [List.mapM_nil, List.map_nil]
    cases out <;> simp
  | cons a l ih =>
    rw [List.mapM_cons, Option.bind_eq_bind, Option.bind_eq_some_iff, List.map_cons]
    constructor
    · rintro ⟨b, hb, h⟩
      obtain ⟨rest, hrest, h⟩ := Option.bind_eq_some_iff.mp h
      obtain rfl := Option.some.inj h
      rw [List.map_cons, hb, ih.mp hrest]
    · intro h
      cases out with
      | nil => nomatch h
      | cons b rest =>
        obtain ⟨hb, hrest⟩ := List.cons.inj h
        exact ⟨b, hb, Option.bind_eq_some_iff.mpr ⟨rest, ih.mpr hrest, rfl⟩⟩

section Lines

variable (I : Importer)

/-- A blank line, a comment or a section header. -/
def isSkipped (line : Text) : Bool :=
  line = [] || line.head? ∈ [some '#', some ';', some '[']

/-- **`Aborts raw`** — an `OR` without a parenthesis. -/
def Importer.Aborts (raw : Text) : Prop :=
  isSkipped (strip raw) = false ∧ I.typeOf (strip raw) = lit "OR" ∧ '(' ∉ strip raw

/-- A `FINAL` line. -/
def Importer.isFinal (raw : Text) : Bool :=
  !isSkipped (strip raw) && I.typeOf (strip raw) = lit "FINAL"

/-- The policy of a `FINAL` line, if it has one. -/
def finalPolicy (raw : Text) : Option Text := (csvSplit (strip raw))[1]?

/-- The last `FINAL` line of a list. -/
def Importer.lastFinal (file : Text) : Option Text := ((pyLines file).filter I.isFinal).getLast?

/-- What is emitted for the last `FINAL` line. -/
def Importer.finalLine (file : Text) : List Text :=
  (((I.lastFinal file).bind finalPolicy).map fun p => lit "FINAL," ++ I.categoryOf p).toList

/-- The rules that are emitted for a list, `FINAL` apart. -/
def Importer.ruleLines (file : Text) : List Text := (I.written file).map I.emit

/-- What a line does, if it does anything. -/
def Importer.effect (raw : Text) : Option Imported :=
  (I.readLine raw).bind fun out => if out = .nothing then none else some out

variable {I}

theorem readLine_of_skipped {raw : Text} (h : isSkipped (strip raw) = true) :
    I.readLine raw = some .nothing := by
  unfold Importer.readLine
  simp only
  rw [if_pos (by simpa [isSkipped] using h)]

theorem readLine_nil : I.readLine [] = some .nothing := readLine_of_skipped (by decide)

theorem parseLogical_eq_none_iff {line : Text} : parseLogical line = none ↔ '(' ∉ line := by
  unfold parseLogical
  simp only
  split
  · next h => simp [h]
  · next h =>
    split
    · simpa using h
    · simpa using h

/-- **`readLine_eq_none_iff`** — no line raises but an `OR` without a parenthesis. -/
theorem readLine_eq_none_iff {raw : Text} : I.readLine raw = none ↔ I.Aborts raw := by
  cases hskip : isSkipped (strip raw) with
  | true =>
    rw [readLine_of_skipped hskip, Importer.Aborts, hskip]
    simp
  | false =>
    have hcond : ¬ (strip raw = [] ∨ (strip raw).head? ∈ [some '#', some ';', some '[']) := by
      simpa [isSkipped] using hskip
    rw [Importer.Aborts, and_iff_right hskip, ← parseLogical_eq_none_iff]
    unfold Importer.readLine
    simp only
    rw [if_neg hcond]
    by_cases hor : I.typeOf (strip raw) = lit "OR"
    · rw [hor, if_neg (by decide), if_pos rfl, and_iff_right rfl]
      cases hlogical : parseLogical (strip raw) with
      | none => simp
      | some both =>
        obtain ⟨members, policy⟩ := both
        cases policy with
        | none => simp
        | some policy =>
          by_cases hpolicy : policy = []
          · simp [hpolicy]
          · simp [hpolicy]
    · simp only [hor, if_false, false_and, iff_false]
      -- every other type ends in a value
      split
      · nofun
      split
      · nofun
      split
      · nofun
      split
      · nofun
      split
      · split <;> nofun
      · nofun

theorem final_readLine (raw : Text) :
    (I.readLine raw).bind Imported.final? =
      if I.isFinal raw = true then some ((finalPolicy raw).map I.categoryOf) else none := by
  cases hskip : isSkipped (strip raw) with
  | true =>
    rw [readLine_of_skipped hskip, Importer.isFinal, hskip]
    rfl
  | false =>
    have hcond : ¬ (strip raw = [] ∨ (strip raw).head? ∈ [some '#', some ';', some '[']) := by
      simpa [isSkipped] using hskip
    have hfinal : I.isFinal raw = decide (I.typeOf (strip raw) = lit "FINAL") := by
      rw [Importer.isFinal, hskip]
      rfl
    rw [hfinal]
    unfold Importer.readLine
    simp only
    rw [if_neg hcond]
    by_cases htype : I.typeOf (strip raw) = lit "FINAL"
    · rw [htype, if_neg (by decide), if_neg (by decide), if_pos rfl, if_pos (by decide)]
      rfl
    · simp only [htype, decide_false, Bool.false_eq_true, if_false]
      -- no other type ends in a `FINAL`
      split
      · rfl
      split
      · split
        · rfl
        · rfl
        · split <;> rfl
      split
      · rfl
      split
      · rfl
      split
      · split <;> rfl
      · rfl

/-! ## The whole import -/

theorem readFile_eq_some_iff {file : Text} {out : List Imported} :
    I.readFile file = some out ↔ (pyLines file).map I.readLine = out.map some :=
  mapM_eq_some_iff

/-- An import ends normally where no line raises. -/
theorem readFile_isSome_iff {file : Text} :
    (I.readFile file).isSome = true ↔ ∀ raw ∈ pyLines file, ¬ I.Aborts raw := by
  simp only [← readLine_eq_none_iff]
  constructor
  · intro h raw hraw hnone
    obtain ⟨out, hout⟩ := Option.isSome_iff_exists.mp h
    have hmem : none ∈ out.map some := by
      rw [← readFile_eq_some_iff.mp hout]
      exact List.mem_map.mpr ⟨raw, hraw, hnone⟩
    obtain ⟨o, -, ho⟩ := List.mem_map.mp hmem
    nomatch ho
  · intro h
    refine Option.isSome_iff_exists.mpr ⟨(pyLines file).map fun raw => (I.readLine raw).getD .nothing,
      readFile_eq_some_iff.mpr ?_⟩
    rw [List.map_map]
    refine List.map_congr_left fun raw hraw => ?_
    obtain ⟨o, ho⟩ := Option.ne_none_iff_exists'.mp (h raw hraw)
    rw [Function.comp_apply, ho, Option.getD_some]

/-- What is collected from the results is collected from the lines. -/
theorem filterMap_readFile {β : Type*} (f : Imported → Option β) {file : Text} {out : List Imported}
    (h : I.readFile file = some out) :
    out.filterMap f = (pyLines file).filterMap fun raw => (I.readLine raw).bind f := by
  have hmap := congrArg (List.filterMap (Option.bind · f)) (readFile_eq_some_iff.mp h)
  rw [List.filterMap_map, List.filterMap_map] at hmap
  exact hmap.symm

theorem matchers_filterMap (out : List Imported) :
    (out.filterMap fun o => if o = .nothing then none else some o).flatMap Imported.matchers =
      out.flatMap Imported.matchers := by
  induction out with
  | nil => rfl
  | cons o out ih =>
    by_cases ho : o = .nothing
    · rw [List.filterMap_cons_none (by simp [ho]), ih, List.flatMap_cons, ho]
      rfl
    · rw [List.filterMap_cons_some (by simp [ho]; rfl), List.flatMap_cons, List.flatMap_cons, ih]

theorem effect_nil : I.effect [] = none := by
  rw [Importer.effect, readLine_nil]
  rfl

/-- The matchers of a file are those of its effective lines. -/
theorem written_eq {file : Text} (h : (I.readFile file).isSome = true) :
    I.written file = ((pyLines file).filterMap I.effect).flatMap Imported.matchers := by
  obtain ⟨out, hout⟩ := Option.isSome_iff_exists.mp h
  rw [Importer.written, hout, Option.getD_some, ← matchers_filterMap, filterMap_readFile _ hout]
  rfl

/-- The last `FINAL` of the results is that of the last `FINAL` line. -/
theorem finals_eq {file : Text} {out : List Imported} (h : I.readFile file = some out) :
    ((out.filterMap Imported.final?).getLast?.join.map (lit "FINAL," ++ ·)).toList =
      I.finalLine file := by
  have hlines : out.filterMap Imported.final? =
      ((pyLines file).filter I.isFinal).map fun raw => (finalPolicy raw).map I.categoryOf := by
    rw [filterMap_readFile _ h, ← List.filterMap_eq_map, List.filterMap_filter]
    refine List.filterMap_congr fun raw _ => ?_
    exact final_readLine raw
  rw [hlines, List.getLast?_map, Importer.finalLine, Importer.lastFinal]
  cases ((pyLines file).filter I.isFinal).getLast? with
  | none => rfl
  | some raw =>
    rw [Option.map_some, Option.join_some, Option.bind_some, Option.map_map]
    rfl

/-- No other line raises when two lists stand one behind the other. -/
theorem readFile_followedBy_isSome {A B : Text} (hA : (I.readFile A).isSome = true)
    (hB : (I.readFile B).isSome = true) : (I.readFile (followedBy A B)).isSome = true := by
  -- the lines that raise, of any text
  let raising : Text → Option Text := fun raw => if (I.readLine raw).isNone then some raw else none
  have hnil : raising [] = none := by
    show (if (I.readLine []).isNone then _ else _) = _
    rw [readLine_nil]
    rfl
  have hnone : ∀ file, (I.readFile file).isSome = true ↔ (pyLines file).filterMap raising = [] := by
    intro file
    rw [readFile_isSome_iff, List.filterMap_eq_nil_iff]
    refine forall₂_congr fun raw _ => ?_
    rw [← readLine_eq_none_iff]
    show _ ↔ (if (I.readLine raw).isNone then some raw else none) = none
    cases I.readLine raw <;> simp
  rw [hnone, filterMap_pyLines_followedBy hnil, (hnone A).mp hA, (hnone B).mp hB]
  rfl

/-- The output for a list: its rules, and the last `FINAL`. -/
theorem importFile_eq {file : Text} (h : (I.readFile file).isSome = true) :
    I.importFile file = some (joinLines (I.ruleLines file ++ I.finalLine file)) := by
  obtain ⟨out, hout⟩ := Option.isSome_iff_exists.mp h
  rw [Importer.importFile, hout, Option.map_some, Importer.outLines, finals_eq hout,
    Importer.ruleLines, Importer.written, hout, Option.getD_some]

/-- **`import_followedBy_iff`** — the imports of two lists end normally, and that of one behind the other
writes the rules of the first, those of the second and the last `FINAL`, exactly where neither list
has an `OR` without a parenthesis. -/
theorem import_followedBy_iff (I : Importer) (A B : Text) :
    ((I.importFile A).isSome = true ∧ (I.importFile B).isSome = true ∧
        I.importFile (followedBy A B) = some (joinLines
          (I.ruleLines A ++ I.ruleLines B ++ I.finalLine (followedBy A B)))) ↔
      ∀ raw, raw ∈ pyLines A ∨ raw ∈ pyLines B → ¬ I.Aborts raw := by
  have hread : ∀ file, (I.importFile file).isSome = (I.readFile file).isSome := by
    intro file
    rw [Importer.importFile, Option.isSome_map]
  simp only [hread, readFile_isSome_iff]
  constructor
  · rintro ⟨hA, hB, -⟩ raw (hraw | hraw)
    · exact hA raw hraw
    · exact hB raw hraw
  · intro h
    have hA := fun raw hraw => h raw (.inl hraw)
    have hB := fun raw hraw => h raw (.inr hraw)
    refine ⟨hA, hB, ?_⟩
    have hreadA := readFile_isSome_iff.mpr hA
    have hreadB := readFile_isSome_iff.mpr hB
    have hboth := readFile_followedBy_isSome hreadA hreadB
    have hwritten : I.written (followedBy A B) = I.written A ++ I.written B := by
      rw [written_eq hboth, written_eq hreadA, written_eq hreadB,
        filterMap_pyLines_followedBy effect_nil, List.flatMap_append]
    rw [importFile_eq hboth, Importer.ruleLines, hwritten, List.map_append]
    rfl

end Lines

/-- The first of two rules is lost with the second. -/
theorem bad_or_spoils_import :
    plainImporter.importFile (lit "DOMAIN,a.com,Proxy\n") = some (lit "DOMAIN,a.com,Proxy\n") ∧
      plainImporter.importFile (lit "DOMAIN,a.com,Proxy\nOR,DOMAIN,b.com,Proxy\n") = none ∧
      ¬ ∀ (I : Importer) (A B : Text),
        (I.importFile A).isSome = true ∧ (I.importFile B).isSome = true ∧
          I.importFile (followedBy A B) = some (joinLines
            (I.ruleLines A ++ I.ruleLines B ++ I.finalLine (followedBy A B))) := by
  refine ⟨by decide, by decide, fun hclaim => ?_⟩
  have hB := (hclaim plainImporter [] (lit "OR,DOMAIN,b.com,Proxy\n")).2.1
  revert hB
  decide

end ProxyGateway.Smart
