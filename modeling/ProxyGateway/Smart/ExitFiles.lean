/-
# ProxyGateway.Smart.ExitFiles — what the commands keep true of the exits directory

The management script writes an exit as `<name>.type` together with `<name>.yaml` or
`pgw-<name>.conf`, and the generator finds it again by file names: `canonical_exit_name` compares
stems up to case, `load_exit_proxy` whole file names.  `Exits.Sound` is what the commands keep true
of the directory, and two facts follow from it: an exit that exists loads (`load_ne_missing`), and a
proxy that loads bears the name of an exit that exists (`exists_of_loaded`).  How the exit that a
name leads to changes when files come and go is `canonical_exists_mono` and
`canonical_exists_remove_iff`.

The two comparisons are not the same in Python: the lower case of a capital sigma depends on the
letters after it, also on those of the extension.  So a rule that names `Aσ` loads the file of an
exit `AΣ`, although no exit is spelled like that.  Nothing is assumed of `str.lower` to rule this out;
`exists_of_load` is for names without such letters (`Host.PlainCase`).
-/
import ProxyGateway.Smart.Mihomo

namespace ProxyGateway.Smart

open ProxyGateway.Lang

/-! ## File names -/

def yamlExt : Text := lit ".yaml"

def typeExt : Text := lit ".type"

def jsonExt : Text := lit ".json"

/-- The name of an exit as the script accepts it, as far as file names are concerned. -/
def ExitName (n : Text) : Prop := n ≠ [] ∧ '.' ∉ n

/-- A stem with a character other than the dot is found again. -/
theorem splitext_append_of_any {n e : Text} (hn : ∃ c ∈ n, c ≠ '.') (he : '.' ∉ e) :
    splitext (n ++ '.' :: e) = (n, '.' :: e) := by
  have hall : ∀ c ∈ e.reverse, (c != '.') = true := fun c hc => by
    have : c ≠ '.' := fun h => he (h ▸ List.mem_reverse.mp hc)
    simpa using this
  have hrev : (n ++ '.' :: e).reverse = e.reverse ++ '.' :: n.reverse := by simp
  have hdrop : (n ++ '.' :: e).rdropWhile (· != '.') = n ++ ['.'] := by
    rw [List.rdropWhile, hrev, List.dropWhile_append_of_pos hall]
    simp
  have htake : (n ++ '.' :: e).rtakeWhile (· != '.') = e := by
    rw [List.rtakeWhile, hrev, List.takeWhile_append_of_pos hall]
    simp
  have hany : n.any (· != '.') = true := by
    obtain ⟨c, hc, hdot⟩ := hn
    exact List.any_eq_true.mpr ⟨c, hc, by simpa using hdot⟩
  simp [splitext, hdrop, htake, hany]

theorem splitext_append {n e : Text} (hn : ExitName n) (he : '.' ∉ e) :
    splitext (n ++ '.' :: e) = (n, '.' :: e) := by
  obtain ⟨hne, hdot⟩ := hn
  obtain ⟨c, n, rfl⟩ := List.exists_cons_of_ne_nil hne
  refine splitext_append_of_any ⟨c, List.mem_cons_self .., ?_⟩ he
  rintro rfl
  exact hdot (List.mem_cons_self ..)

theorem splitext_yaml {n : Text} (hn : ExitName n) : splitext (n ++ yamlExt) = (n, yamlExt) :=
  splitext_append hn (by decide)

theorem splitext_type {n : Text} (hn : ExitName n) : splitext (n ++ typeExt) = (n, typeExt) :=
  splitext_append hn (by decide)

theorem length_ext {ext : Text} (h : ext ∈ [yamlExt, jsonExt, typeExt]) : ext.length = 5 := by
  have hall : [yamlExt, jsonExt, typeExt].all (·.length = 5) = true := by decide
  simpa using List.all_eq_true.mp hall ext h

@[simp] theorem length_yamlExt : yamlExt.length = 5 := length_ext (by simp)

@[simp] theorem length_typeExt : typeExt.length = 5 := length_ext (by simp)

/-- Names with different extensions differ. -/
theorem yaml_ne_type {a b : Text} : a ++ yamlExt ≠ b ++ typeExt := fun h => by
  have hne : yamlExt ≠ typeExt := by decide
  exact hne (List.append_inj_right' h (by simp))

/-- A file with the extension of an exit spells its stem. -/
theorem Host.spells_append (H : Host) {f : ExitFile} {n t ext : Text} (hn : ExitName n)
    (hext : ext = yamlExt ∨ ext = typeExt) (hname : f.name = n ++ ext) :
    H.spells f t = decide (H.lower n = H.lower t) := by
  have hmem : ext ∈ [lit ".yaml", lit ".json", lit ".type"] := by
    rcases hext with rfl | rfl
    · exact List.mem_cons_self ..
    · exact .tail _ (.tail _ (.head _))
  rcases hext with rfl | rfl
  · rw [Host.spells, hname, splitext_yaml hn, decide_eq_true hmem, Bool.true_and]
  · rw [Host.spells, hname, splitext_type hn, decide_eq_true hmem, Bool.true_and]

/-- Compared with the name of a file, with any of its extensions, `t` is compared with the stem. -/
def Host.PlainCase (H : Host) (t : Text) : Prop :=
  ∀ n, ∀ e ∈ [yamlExt, typeExt], ∀ ext ∈ [yamlExt, jsonExt],
    H.lower (n ++ e) = H.lower t ++ ext → H.lower n = H.lower t

/-! ## A sound exits directory -/

/-- **`Exits.Sound`** — every file belongs to an exit, every exit has its type and a configuration,
and only the configuration of `smart` can be without proxies. -/
structure Exits.Sound (E : Exits) : Prop where
  named : ∀ f ∈ E.files, ∃ n, ExitName n ∧ (f.name = n ++ yamlExt ∨ f.name = n ++ typeExt)
  typed : ∀ n, E.hasFile (n ++ yamlExt) = true ∨ E.hasWg n = true → E.hasFile (n ++ typeExt) = true
  config : ∀ n, E.hasFile (n ++ typeExt) = true → E.hasFile (n ++ yamlExt) = true ∨ E.hasWg n = true
  empty : ∀ f ∈ E.files, f.loads = .nothing → f.name = lit "smart" ++ yamlExt

namespace Exits

variable {H : Host} {E : Exits}

theorem hasFile_iff {name : Text} : E.hasFile name = true ↔ ∃ f ∈ E.files, f.name = name := by
  simp [hasFile]

theorem hasWg_iff {name : Text} : E.hasWg name = true ↔ ∃ w ∈ E.wireguard, w.name = name := by
  simp [hasWg]

theorem Sound.exitExists_iff (hE : E.Sound) {n : Text} :
    E.exitExists n = true ↔ E.hasFile (n ++ typeExt) = true := by
  rw [exitExists, Bool.or_eq_true]
  exact ⟨fun h => h.elim id fun hw => hE.typed n (.inr hw), .inl⟩

/-- A file belongs to the exit of its stem. -/
theorem Sound.stem (hE : E.Sound) {f : ExitFile} (hf : f ∈ E.files) :
    ExitName (splitext f.name).1 ∧ E.exitExists (splitext f.name).1 = true := by
  obtain ⟨n, hn, hname | hname⟩ := hE.named f hf
  · rw [hname, splitext_yaml hn]
    exact ⟨hn, hE.exitExists_iff.mpr (hE.typed n (.inl (hasFile_iff.mpr ⟨f, hf, hname⟩)))⟩
  · rw [hname, splitext_type hn]
    exact ⟨hn, hE.exitExists_iff.mpr (hasFile_iff.mpr ⟨f, hf, hname⟩)⟩

/-- The name of an exit that exists. -/
theorem Sound.exitName (hE : E.Sound) {n : Text} (h : E.exitExists n = true) : ExitName n := by
  obtain ⟨f, hf, hname⟩ := hasFile_iff.mp (hE.exitExists_iff.mp h)
  obtain ⟨k, hk, hname' | hname'⟩ := hE.named f hf
  · exact absurd (hname'.symm.trans hname) yaml_ne_type
  · rwa [List.append_cancel_right (hname.symm.trans hname')]

/-- Every file of an exit spells its name. -/
theorem spells_of_hasFile {name t : Text} {ext : Text} (hn : ExitName name)
    (hext : ext = yamlExt ∨ ext = typeExt) (hfile : E.hasFile (name ++ ext) = true)
    (hlower : H.lower name = H.lower t) : ∃ f ∈ E.files, H.spells f t = true := by
  obtain ⟨f, hf, hname⟩ := hasFile_iff.mp hfile
  exact ⟨f, hf, by rw [H.spells_append hn hext hname, decide_eq_true hlower]⟩

theorem canonical_cases (H : Host) (E : Exits) (t : Text) :
    (∃ f ∈ E.files, H.spells f t = true ∧ E.canonicalExitName H t = (splitext f.name).1) ∨
      (∀ f ∈ E.files, H.spells f t = false) ∧ E.canonicalExitName H t = t := by
  unfold canonicalExitName
  cases hfind : E.files.find? (H.spells · t) with
  | some f =>
    exact .inl ⟨f, List.mem_of_find?_eq_some hfind, by simpa using List.find?_some hfind, rfl⟩
  | none =>
    exact .inr ⟨fun f hf => by simpa using List.find?_eq_none.mp hfind f hf, rfl⟩

theorem lower_of_spells {f : ExitFile} {t : Text} (h : H.spells f t = true) :
    H.lower (splitext f.name).1 = H.lower t := by
  simp only [Host.spells, Bool.and_eq_true, decide_eq_true_eq] at h
  exact h.2

/-! ## Loading -/

theorem findFile_of_hasFile {name ext : Text} (h : E.hasFile (name ++ ext) = true) :
    ∃ f ∈ E.files, E.findFile H name ext = some (f, name) := by
  obtain ⟨g, hg, hname⟩ := hasFile_iff.mp h
  obtain ⟨f, hf⟩ := Option.isSome_iff_exists.mp
    (List.find?_isSome.mpr ⟨g, hg, by simpa using hname⟩ :
      (E.files.find? fun f => f.name = name ++ ext).isSome)
  exact ⟨f, List.mem_of_find?_eq_some hf, by simp only [findFile, hf]⟩

theorem findFile_mem {name ext k : Text} {f : ExitFile} (h : E.findFile H name ext = some (f, k)) :
    f ∈ E.files ∧ (f.name = name ++ ext ∧ k = name ∨
      H.lower f.name = H.lower name ++ ext ∧ k = f.name.take (f.name.length - 5)) := by
  unfold findFile at h
  split at h
  · next g hg =>
    obtain ⟨rfl, rfl⟩ := Prod.mk.inj (Option.some.inj h)
    exact ⟨List.mem_of_find?_eq_some hg, .inl ⟨by simpa using List.find?_some hg, rfl⟩⟩
  · split at h
    · next g hg =>
      obtain ⟨rfl, rfl⟩ := Prod.mk.inj (Option.some.inj h)
      exact ⟨List.mem_of_find?_eq_some hg, .inr ⟨by simpa using List.find?_some hg, rfl⟩⟩
    · nomatch h

/-- A file that is found gives its stem as the name. -/
theorem Sound.findFile_name (hE : E.Sound) {name ext k : Text} {f : ExitFile}
    (hext : ext ∈ [yamlExt, jsonExt]) (h : E.findFile H name ext = some (f, k)) :
    f ∈ E.files ∧ k = (splitext f.name).1 := by
  obtain ⟨hf, hname⟩ := findFile_mem h
  have htake : (splitext f.name).1 = f.name.take (f.name.length - 5) := by
    obtain ⟨n, hn, hn' | hn'⟩ := hE.named f hf
    · rw [hn', splitext_yaml hn]
      simp
    · rw [hn', splitext_type hn]
      simp
  refine ⟨hf, htake ▸ ?_⟩
  rcases hname with ⟨hname, rfl⟩ | ⟨-, hk⟩
  · have hlen : ext.length = 5 := length_ext (by grind)
    rw [hname, List.length_append, hlen, Nat.add_sub_cancel, List.take_left]
  · exact hk

theorem loadWg_eq_some {name proxy : Text} (h : E.loadWg name = .ok (some proxy)) :
    proxy = name ∧ E.hasWg name = true := by
  unfold loadWg at h
  split at h
  · next w hw =>
    split at h
    · cases h
      exact ⟨rfl, hasWg_iff.mpr
        ⟨w, List.mem_of_find?_eq_some hw, by simpa using List.find?_some hw⟩⟩
    · nomatch h
  · nomatch h

theorem loadWg_ne_missing {name : Text} (h : E.hasWg name = true) : E.loadWg name ≠ .ok none := by
  obtain ⟨w, hw, hname⟩ := hasWg_iff.mp h
  unfold loadWg
  split
  · split <;> nofun
  · next hnone =>
    have := List.find?_eq_none.mp hnone w hw
    simp [hname] at this

/-- **`load_ne_missing`** — an exit that exists loads, or its file is broken; it is not missing. -/
theorem load_ne_missing (hE : E.Sound) {name : Text} (hne : ∀ f ∈ E.files, f.loads ≠ .nothing)
    (h : E.exitExists name = true) : E.loadExitProxy H name ≠ .ok none := by
  unfold loadExitProxy
  split
  · next f k hfind =>
    cases hl : f.loads with
    | nothing => exact absurd hl (hne f (findFile_mem hfind).1)
    | _ => nofun
  · next hfind =>
    have hwg : E.hasWg name = true :=
      (hE.config name (hE.exitExists_iff.mp h)).resolve_left fun hyaml => by
        obtain ⟨f, -, hf⟩ := findFile_of_hasFile (H := H) hyaml
        exact nomatch hfind.symm.trans hf
    unfold loadJson
    split
    · split <;> nofun
    · exact loadWg_ne_missing hwg

theorem Sound.exists_of_loadJson (hE : E.Sound) {name proxy : Text}
    (h : E.loadJson H name = .ok (some proxy)) : E.exitExists proxy = true := by
  unfold loadJson at h
  split at h
  · next f k hfind =>
    obtain ⟨hf, rfl⟩ := hE.findFile_name (by simp [jsonExt]) hfind
    split at h
    · nomatch h
    · cases h
      exact (hE.stem hf).2
  · obtain ⟨rfl, hwg⟩ := loadWg_eq_some h
    rw [exitExists, hwg, Bool.or_true]

/-- **`exists_of_loaded`** — a proxy that loads bears the name of an exit that exists, whatever name
it was searched by. -/
theorem Sound.exists_of_loaded (hE : E.Sound) {name proxy : Text}
    (h : E.loadExitProxy H name = .ok (some proxy)) : E.exitExists proxy = true := by
  unfold loadExitProxy at h
  split at h
  · next f k hfind =>
    obtain ⟨hf, rfl⟩ := hE.findFile_name (by simp [yamlExt]) hfind
    cases hl : f.loads with
    | proxy =>
      rw [hl] at h
      cases h
      exact (hE.stem hf).2
    | nothing =>
      rw [hl] at h
      exact hE.exists_of_loadJson h
    | fails =>
      rw [hl] at h
      nomatch h
  · exact hE.exists_of_loadJson h

theorem Sound.spells_of_findFile (hE : E.Sound) {t ext k : Text} (ht : H.PlainCase t)
    {f : ExitFile} (hext : ext ∈ [yamlExt, jsonExt]) (h : E.findFile H t ext = some (f, k)) :
    ∃ f ∈ E.files, H.spells f t = true := by
  obtain ⟨hf, hname⟩ := findFile_mem h
  obtain ⟨n, e, hn, he, hne⟩ : ∃ n e, ExitName n ∧ (e = yamlExt ∨ e = typeExt) ∧ f.name = n ++ e := by
    obtain ⟨n, hn, hn' | hn'⟩ := hE.named f hf
    · exact ⟨n, yamlExt, hn, .inl rfl, hn'⟩
    · exact ⟨n, typeExt, hn, .inr rfl, hn'⟩
  refine spells_of_hasFile hn he (hasFile_iff.mpr ⟨f, hf, hne⟩) ?_
  rcases hname with ⟨hname, -⟩ | ⟨hname, -⟩
  · have hlen : e.length = ext.length := by
      have he5 : e.length = 5 := length_ext (by grind)
      have hext5 : ext.length = 5 := length_ext (by grind)
      rw [he5, hext5]
    rw [(List.append_inj' (hne.symm.trans hname) hlen).1]
  · exact ht n e (by rcases he with rfl | rfl <;> simp) ext hext (hne ▸ hname)

/-- **`exists_of_load`** — the exit that a plainly cased name leads to exists if it loads. -/
theorem Sound.exists_of_load (hE : E.Sound) {t proxy : Text} (ht : H.PlainCase t)
    (h : E.loadExitProxy H t = .ok (some proxy)) (hnone : ∀ f ∈ E.files, H.spells f t = false) :
    E.exitExists t = true := by
  have hno : ∀ ext ∈ [yamlExt, jsonExt], E.findFile H t ext = none := fun ext hext => by
    by_contra hsome
    obtain ⟨⟨f, k⟩, hfk⟩ := Option.ne_none_iff_exists'.mp hsome
    obtain ⟨g, hg, hspells⟩ := hE.spells_of_findFile ht hext hfk
    rw [hnone g hg] at hspells
    nomatch hspells
  have hyaml : E.findFile H t (lit ".yaml") = none := hno yamlExt (by simp)
  have hjson : E.findFile H t (lit ".json") = none := hno jsonExt (by simp)
  simp only [loadExitProxy, hyaml, loadJson, hjson] at h
  rw [exitExists, (loadWg_eq_some h).2, Bool.or_true]

/-! ## When files come -/

section Grow

variable {E' : Exits}

/-- **`Extends`** — every name of `E` is one of `E'`. -/
structure Extends (E E' : Exits) : Prop where
  files : ∀ n, E.hasFile n = true → E'.hasFile n = true
  wireguard : ∀ n, E.hasWg n = true → E'.hasWg n = true

theorem Extends.exitExists (h : E.Extends E') {n : Text} (hn : E.exitExists n = true) :
    E'.exitExists n = true := by
  rw [Exits.exitExists, Bool.or_eq_true] at hn ⊢
  exact hn.imp (h.files _) (h.wireguard n)

/-- A name that a file of the directory spells leads to an exit that exists. -/
theorem Sound.exists_of_spells (hE : E.Sound) {f : ExitFile} {t : Text} (hf : f ∈ E.files)
    (hspells : H.spells f t = true) : E.exitExists (E.canonicalExitName H t) = true := by
  rcases canonical_cases H E t with ⟨g, hg, -, hcan⟩ | ⟨hnone, -⟩
  · rw [hcan]
    exact (hE.stem hg).2
  · rw [hnone f hf] at hspells
    nomatch hspells

/-- **`canonical_exists_mono`** — a name that leads to an exit still leads to one when files were
added, if perhaps to another one. -/
theorem canonical_exists_mono (hE' : E'.Sound) (hext : E.Extends E') {t : Text}
    (h : E.exitExists (E.canonicalExitName H t) = true) :
    E'.exitExists (E'.canonicalExitName H t) = true := by
  rcases canonical_cases H E' t with ⟨f, hf, hspells, -⟩ | ⟨hnone, hcan⟩
  · exact hE'.exists_of_spells hf hspells
  · have hnone' : ∀ f ∈ E.files, H.spells f t = false := fun f hf => by
      obtain ⟨g, hg, hname⟩ := hasFile_iff.mp (hext.files f.name (hasFile_iff.mpr ⟨f, hf, rfl⟩))
      rw [← hnone g hg, Host.spells, Host.spells, hname]
    rcases canonical_cases H E t with ⟨f, hf, hspells, -⟩ | ⟨-, hcan'⟩
    · rw [hnone' f hf] at hspells
      nomatch hspells
    · rw [hcan'] at h
      rw [hcan]
      exact hext.exitExists h

end Grow

/-- What bears a name, after what bore that of `x` was replaced by `x`. -/
theorem exists_replace {α : Type} (name : α → Text) (l : List α) (x : α) (n : Text) :
    (∃ y ∈ l.filter (fun y => name y ≠ name x) ++ [x], name y = n) ↔
      name x = n ∨ ∃ y ∈ l, name y = n := by
  simp only [List.mem_append, List.mem_filter, List.mem_singleton, decide_eq_true_eq]
  constructor
  · rintro ⟨y, ⟨hy, -⟩ | rfl, hname⟩
    · exact .inr ⟨y, hy, hname⟩
    · exact .inl hname
  · rintro (rfl | ⟨y, hy, rfl⟩)
    · exact ⟨x, .inr rfl, rfl⟩
    · by_cases hname : name y = name x
      · exact ⟨x, .inr rfl, hname.symm⟩
      · exact ⟨y, .inl ⟨hy, hname⟩, rfl⟩

/-- Writes a file of the exits directory. -/
def put (E : Exits) (f : ExitFile) : Exits :=
  { E with files := E.files.filter (fun g => g.name ≠ f.name) ++ [f] }

/-- Writes a WireGuard configuration. -/
def putWg (E : Exits) (w : WgConf) : Exits :=
  { E with wireguard := E.wireguard.filter (fun v => v.name ≠ w.name) ++ [w] }

@[simp] theorem hasFile_put {f : ExitFile} {n : Text} :
    (E.put f).hasFile n = true ↔ f.name = n ∨ E.hasFile n = true := by
  rw [hasFile_iff, hasFile_iff]
  exact exists_replace ExitFile.name E.files f n

@[simp] theorem hasWg_put {f : ExitFile} {n : Text} : (E.put f).hasWg n = E.hasWg n := rfl

@[simp] theorem hasWg_putWg {w : WgConf} {n : Text} :
    (E.putWg w).hasWg n = true ↔ w.name = n ∨ E.hasWg n = true := by
  rw [hasWg_iff, hasWg_iff]
  exact exists_replace WgConf.name E.wireguard w n

@[simp] theorem hasFile_putWg {w : WgConf} {n : Text} : (E.putWg w).hasFile n = E.hasFile n := rfl

theorem mem_put {f g : ExitFile} (h : g ∈ (E.put f).files) :
    g = f ∨ g ∈ E.files ∧ g.name ≠ f.name := by
  rcases List.mem_append.mp h with hg | hg
  · exact .inr (by simpa using hg)
  · exact .inl (List.mem_singleton.mp hg)

/-- Writes `<name>.yaml` and `<name>.type`. -/
def install (E : Exits) (name : Text) (loads : Loads) : Exits :=
  (E.put ⟨name ++ yamlExt, loads, false⟩).put ⟨name ++ typeExt, .fails, false⟩

/-- Writes `pgw-<name>.conf` and `<name>.type`. -/
def installWg (E : Exits) (w : WgConf) : Exits :=
  (E.putWg w).put ⟨w.name ++ typeExt, .fails, false⟩

theorem mem_install {name : Text} {loads : Loads} {g : ExitFile}
    (h : g ∈ (E.install name loads).files) :
    g = ⟨name ++ typeExt, .fails, false⟩ ∨ g = ⟨name ++ yamlExt, loads, false⟩ ∨
      g ∈ E.files ∧ g.name ≠ name ++ yamlExt := by
  rcases mem_put h with rfl | ⟨hg, -⟩
  · exact .inl rfl
  · exact .inr (mem_put hg)

theorem extends_install {name : Text} {loads : Loads} : E.Extends (E.install name loads) :=
  ⟨fun n hn => by simp [install, hn], fun n hn => hn⟩

theorem extends_installWg {w : WgConf} : E.Extends (E.installWg w) :=
  ⟨fun n hn => by simp [installWg, hn], fun n hn => by simp [installWg, hn]⟩

theorem Sound.install (hE : E.Sound) {name : Text} {loads : Loads} (hn : ExitName name)
    (hloads : loads = .nothing → name = lit "smart") : (E.install name loads).Sound := by
  refine ⟨fun f hf => ?_, fun n h => ?_, fun n h => ?_, fun f hf hempty => ?_⟩
  · rcases mem_install hf with rfl | rfl | ⟨hf, -⟩
    · exact ⟨name, hn, .inr rfl⟩
    · exact ⟨name, hn, .inl rfl⟩
    · exact hE.named f hf
  · simp only [Exits.install, hasFile_put, hasWg_put] at h ⊢
    rcases h with (h | h | h) | h
    · exact absurd h.symm yaml_ne_type
    · rw [List.append_cancel_right h]
      exact .inl rfl
    · exact .inr (.inr (hE.typed n (.inl h)))
    · exact .inr (.inr (hE.typed n (.inr h)))
  · simp only [Exits.install, hasFile_put, hasWg_put] at h ⊢
    rcases h with h | h | h
    · rw [List.append_cancel_right h]
      exact .inl (.inr (.inl rfl))
    · exact absurd h yaml_ne_type
    · exact (hE.config n h).imp (fun h => .inr (.inr h)) id
  · rcases mem_install hf with rfl | rfl | ⟨hf, -⟩
    · nomatch hempty
    · rw [hloads hempty]
    · exact hE.empty f hf hempty

theorem Sound.installWg (hE : E.Sound) {w : WgConf} (hn : ExitName w.name) :
    (E.installWg w).Sound := by
  refine ⟨fun f hf => ?_, fun n h => ?_, fun n h => ?_, fun f hf hempty => ?_⟩
  · rcases mem_put hf with rfl | ⟨hf, -⟩
    · exact ⟨w.name, hn, .inr rfl⟩
    · exact hE.named f hf
  · simp only [Exits.installWg, hasFile_put, hasFile_putWg, hasWg_put, hasWg_putWg] at h ⊢
    rcases h with (h | h) | h | h
    · exact absurd h.symm yaml_ne_type
    · exact .inr (hE.typed n (.inl h))
    · exact .inl (by rw [h])
    · exact .inr (hE.typed n (.inr h))
  · simp only [Exits.installWg, hasFile_put, hasFile_putWg, hasWg_put, hasWg_putWg] at h ⊢
    rcases h with h | h
    · exact .inr (.inl (List.append_cancel_right h))
    · exact (hE.config n h).imp .inr .inr
  · rcases mem_put hf with rfl | ⟨hf, -⟩
    · nomatch hempty
    · exact hE.empty f hf hempty

/-- The order in which the directory is listed does not matter. -/
theorem Sound.relist (hE : E.Sound) {files : List ExitFile} (h : files.Perm E.files) :
    E.Extends { E with files := files } ∧ ({ E with files := files } : Exits).Sound := by
  have hfile : ∀ n, ({ E with files := files } : Exits).hasFile n = true ↔ E.hasFile n = true :=
    fun n => by simp [hasFile_iff, h.mem_iff]
  exact ⟨⟨fun n => (hfile n).mpr, fun _ => id⟩, fun f hf => hE.named f (h.mem_iff.mp hf),
    fun n hn => (hfile _).mpr (hE.typed n (hn.imp (hfile _).mp id)),
    fun n hn => (hE.config n ((hfile _).mp hn)).imp (hfile _).mpr id,
    fun f hf => hE.empty f (h.mem_iff.mp hf)⟩

/-! ## When files go -/

/-- Removes the files of an exit. -/
def remove (E : Exits) (name : Text) : Exits :=
  ⟨E.files.filter fun f => f.name ∉ [name ++ yamlExt, name ++ jsonExt, name ++ typeExt],
    E.wireguard.filter fun w => w.name ≠ name⟩

theorem hasFile_remove {d n e : Text} (he : e = yamlExt ∨ e = typeExt) :
    (E.remove d).hasFile (n ++ e) = true ↔ E.hasFile (n ++ e) = true ∧ n ≠ d := by
  have hmem : n ++ e ∈ [d ++ yamlExt, d ++ jsonExt, d ++ typeExt] ↔ n = d := by
    constructor
    · intro h
      simp only [List.mem_cons, List.not_mem_nil, or_false] at h
      have hlen : ∀ e' ∈ [yamlExt, jsonExt, typeExt], e.length = e'.length := fun e' he' => by
        rw [length_ext he', length_ext (by rcases he with rfl | rfl <;> simp)]
      rcases h with h | h | h <;> exact (List.append_inj' h (hlen _ (by simp))).1
    · rintro rfl
      rcases he with rfl | rfl <;> simp
  simp only [hasFile_iff, remove, List.mem_filter, decide_eq_true_eq]
  constructor
  · rintro ⟨f, ⟨hf, hkeep⟩, hname⟩
    rw [hname, hmem] at hkeep
    exact ⟨⟨f, hf, hname⟩, hkeep⟩
  · rintro ⟨⟨f, hf, hname⟩, hne⟩
    exact ⟨f, ⟨hf, by rwa [hname, hmem]⟩, hname⟩

theorem hasWg_remove {d n : Text} : (E.remove d).hasWg n = true ↔ E.hasWg n = true ∧ n ≠ d := by
  simp only [hasWg_iff, remove, List.mem_filter, decide_eq_true_eq]
  constructor
  · rintro ⟨w, ⟨hw, hne⟩, rfl⟩
    exact ⟨⟨w, hw, rfl⟩, hne⟩
  · rintro ⟨⟨w, hw, rfl⟩, hne⟩
    exact ⟨w, ⟨hw, hne⟩, rfl⟩

theorem exitExists_remove {d n : Text} :
    (E.remove d).exitExists n = true ↔ E.exitExists n = true ∧ n ≠ d := by
  have hfile := hasFile_remove (E := E) (d := d) (n := n) (.inr rfl)
  simp only [exitExists, Bool.or_eq_true]
  rw [show lit ".type" = typeExt from rfl, hfile, hasWg_remove]
  tauto

theorem Sound.remove (hE : E.Sound) (d : Text) : (E.remove d).Sound := by
  refine ⟨fun f hf => hE.named f (List.mem_filter.mp hf).1, fun n h => ?_, fun n h => ?_,
    fun f hf => hE.empty f (List.mem_filter.mp hf).1⟩
  · rw [hasFile_remove (.inl rfl), hasWg_remove] at h
    rw [hasFile_remove (.inr rfl)]
    exact ⟨hE.typed n (h.imp And.left And.left), h.elim And.right And.right⟩
  · rw [hasFile_remove (.inr rfl)] at h
    rw [hasFile_remove (.inl rfl), hasWg_remove]
    exact (hE.config n h.1).imp (⟨·, h.2⟩) (⟨·, h.2⟩)

/-- What stays is what has another stem. -/
theorem Sound.mem_remove (hE : E.Sound) {d : Text} {f : ExitFile} (hf : f ∈ E.files)
    (hne : (splitext f.name).1 ≠ d) : ∃ g ∈ (E.remove d).files, g.name = f.name := by
  rw [← hasFile_iff]
  obtain ⟨n, hn, hname | hname⟩ := hE.named f hf
  · rw [hname, splitext_yaml hn] at hne
    rw [hname, hasFile_remove (.inl rfl), ← hname]
    exact ⟨hasFile_iff.mpr ⟨f, hf, rfl⟩, hne⟩
  · rw [hname, splitext_type hn] at hne
    rw [hname, hasFile_remove (.inr rfl), ← hname]
    exact ⟨hasFile_iff.mpr ⟨f, hf, rfl⟩, hne⟩

theorem Sound.stem_ne_of_mem_remove (hE : E.Sound) {d : Text} {f : ExitFile}
    (hf : f ∈ (E.remove d).files) : (splitext f.name).1 ≠ d := by
  have h := (hE.remove d).stem hf
  exact (exitExists_remove.mp h.2).2

/-- **`Twin`** — another exit is spelled like `d` up to case. -/
def Twin (H : Host) (E : Exits) (d : Text) : Prop :=
  ∃ f ∈ E.files, H.spells f d = true ∧ (splitext f.name).1 ≠ d

instance (H : Host) (E : Exits) (d : Text) : Decidable (E.Twin H d) :=
  inferInstanceAs (Decidable (∃ f ∈ E.files, H.spells f d = true ∧ (splitext f.name).1 ≠ d))

/-- **`canonical_exists_remove_iff`** — after an exit was removed, a name that led to an exit leads to
one exactly if it led to another one or if a twin takes over. -/
theorem canonical_exists_remove_iff (hE : E.Sound) {d t : Text}
    (h : E.exitExists (E.canonicalExitName H t) = true) :
    (E.remove d).exitExists ((E.remove d).canonicalExitName H t) = true ↔
      (E.canonicalExitName H t = d → E.Twin H d) := by
  have hstays : ∀ f ∈ E.files, H.spells f t = true → (splitext f.name).1 ≠ d →
      (E.remove d).exitExists ((E.remove d).canonicalExitName H t) = true := by
    intro f hf hspells hne
    obtain ⟨g, hg, hname⟩ := hE.mem_remove hf hne
    exact (hE.remove d).exists_of_spells hg (by rw [← hspells, Host.spells, Host.spells, hname])
  rcases canonical_cases H E t with ⟨f, hf, hspells, hcan⟩ | ⟨hnone, hcan⟩
  · have hlower := lower_of_spells hspells
    constructor
    · intro hexists heq
      -- the file that gives `t` its spelling now is the twin
      rcases canonical_cases H (E.remove d) t with ⟨g, hg, hgspells, -⟩ | ⟨hnone, hcan'⟩
      · refine ⟨g, (List.mem_filter.mp hg).1, ?_, hE.stem_ne_of_mem_remove hg⟩
        rw [← heq, hcan]
        simpa [Host.spells, hlower] using hgspells
      · -- an exit has a file of its own name
        rw [hcan'] at hexists
        have hfile := (hE.remove d).exitExists_iff.mp hexists
        obtain ⟨g, hg, hgspells⟩ :=
          spells_of_hasFile (H := H) ((hE.remove d).exitName hexists) (.inr rfl) hfile rfl
        rw [hnone g hg] at hgspells
        nomatch hgspells
    · intro htwin
      by_cases heq : E.canonicalExitName H t = d
      · obtain ⟨g, hg, hgspells, hne⟩ := htwin heq
        refine hstays g hg ?_ hne
        rw [← heq, hcan] at hgspells
        simpa [Host.spells, hlower] using hgspells
      · exact hstays f hf hspells (hcan ▸ heq)
  · -- no file gives `t` another spelling, before or afterwards
    have hnone' : ∀ g ∈ (E.remove d).files, H.spells g t = false := fun g hg =>
      hnone g (List.mem_filter.mp hg).1
    rcases canonical_cases H (E.remove d) t with ⟨g, hg, hgspells, -⟩ | ⟨-, hcan'⟩
    · rw [hnone' g hg] at hgspells
      nomatch hgspells
    · rw [hcan] at h ⊢
      rw [hcan', exitExists_remove]
      constructor
      · rintro ⟨-, hne⟩ rfl
        exact absurd rfl hne
      · refine fun htwin => ⟨h, ?_⟩
        rintro rfl
        obtain ⟨g, hg, hgspells, -⟩ := htwin rfl
        rw [hnone g hg] at hgspells
        nomatch hgspells

end Exits

end ProxyGateway.Smart
