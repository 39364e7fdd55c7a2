/-
# ProxyGateway.Dns.ChinaChunks — `write_chinalist_chunks`

The ChinaList has more names than one Lua function can hold constants.  The function writes them to
numbered files of at most `CHINALIST_CHUNK_SIZE` names, into a directory that is moved into place later,
and a loader that names these files by the paths they will have then.

A chunk is opened by the first name that has none to go into, so a list of a whole number of chunks has
no empty one behind it, and an empty list has none at all.  `written_chunked` says that reading the
loader and then the files that it names gives back the list.
-/
import ProxyGateway.Dns.GfwList
import ProxyGateway.Logic.Batches
import Mathlib.Data.List.Nodup

namespace ProxyGateway.Dns

open ProxyGateway.Lang ProxyGateway.Logic

/-! ## The function -/

/-- A directory: its files by name, line by line. -/
abbrev Dir := Text → Option (List Text)

/-- `printf … > file` -/
def Dir.write (dir : Dir) (name : Text) (lines : List Text) : Dir :=
  fun name' => if name' = name then some lines else dir name'

/-- `echo … >> file` -/
def Dir.append (dir : Dir) (name line : Text) : Dir :=
  dir.write name ((dir name).getD [] ++ [line])

/-- `CHINALIST_CHUNK_DIR` with a slash. -/
def chunkDir : Text := lit "/etc/dnsdist/chinalist.d/"

/-- `printf 'chinalist-%03d.lua'` -/
def chunkName (index : Nat) : Text :=
  lit "chinalist-" ++ (List.replicate (3 - (decimal index).length) '0' ++ decimal index) ++ lit ".lua"

/-- What a chunk starts with. -/
def chunkHeader : Text := lit "local chinaList = ..."

/-- The variables of the function, and the directory that it writes to. -/
structure ChunkWriter where
  count : Nat
  chunkIndex : Nat
  entriesInChunk : Nat
  chunkFile : Text
  chunkPaths : List Text
  dir : Dir

/-- `start_chinalist_chunk` -/
def ChunkWriter.start (s : ChunkWriter) : ChunkWriter :=
  let basename := chunkName s.chunkIndex
  { s with
    chunkFile := basename
    dir := s.dir.write basename [chunkHeader]
    chunkPaths := s.chunkPaths ++ [chunkDir ++ basename]
    chunkIndex := s.chunkIndex + 1
    entriesInChunk := 0 }

/-- The body of the loop; `n` is `CHINALIST_CHUNK_SIZE`. -/
def ChunkWriter.add (n : Nat) (s : ChunkWriter) (domain : Text) : ChunkWriter :=
  if domain = [] then s
  else
    let s := if s.entriesInChunk = 0 then s.start else s
    { s with
      dir := s.dir.append s.chunkFile (chinaLine domain)
      count := s.count + 1
      entriesInChunk := if n ≤ s.entriesInChunk + 1 then 0 else s.entriesInChunk + 1 }

/-- `    "path",` -/
def pathLine (path : Text) : Text := lit "    \"" ++ path ++ lit "\","

/-- The loader. -/
def loaderLines (paths : List Text) : List Text :=
  if paths = [] then [lit "-- (no chinalist rules loaded)"]
  else lit "local chinalistChunks = \x7b" :: paths.map pathLine ++
    [lit "\x7d", lit "for _, chunk in ipairs(chinalistChunks) do",
      lit "    assert(loadfile(chunk))(chinaList)", lit "end"]

/-- The directory of chunks, the loader and what is printed. -/
structure Written where
  dir : Dir
  loader : List Text
  printed : Text

/-- Before the loop. -/
def ChunkWriter.init : ChunkWriter := ⟨0, 0, 0, [], [], fun _ => none⟩

/-- **`write_chinalist_chunks`** -/
def writeChinalistChunks (n : Nat) (domains : List Text) : Written :=
  let s := domains.foldl (ChunkWriter.add n) .init
  { dir := s.dir, loader := loaderLines s.chunkPaths, printed := decimal s.count }

/-! ## What dnsdist reads -/

/-- The path in a line of the loader's table. -/
def quotedPath (line : Text) : Option Text :=
  if (lit "    \"").isPrefixOf line ∧ (lit "\",").isSuffixOf line then
    some ((line.drop 5).take (line.length - 7))
  else none

/-- The chunks that the loader names, in its order. -/
def Written.named (w : Written) : List Text := w.loader.filterMap quotedPath

/-- The file of a path, once the directory is in place. -/
def Written.fileAt (w : Written) (path : Text) : Option (List Text) :=
  if chunkDir.isPrefixOf path then w.dir (path.drop chunkDir.length) else none

/-- The add-lines of a chunk. -/
def Written.entries (w : Written) (path : Text) : List Text := ((w.fileAt path).getD []).drop 1

/-- The loader and its chunks hold the names: each chunk once and nothing else, filled in turn. -/
structure Chunked (n : Nat) (names : List Text) (w : Written) : Prop where
  once : w.named.Nodup
  files : ∀ path, path ∈ w.named ↔ (w.fileAt path).isSome = true
  header : ∀ path ∈ w.named, w.fileAt path = some (chunkHeader :: w.entries path)
  entries : w.named.flatMap w.entries = names.map chinaLine
  sizes : ∀ path ∈ w.named, 0 < (w.entries path).length ∧ (w.entries path).length ≤ n
  full : ∀ path ∈ w.named.dropLast, (w.entries path).length = n
  printed : w.printed = decimal names.length

/-! ## Names and paths -/

/-- Zeros in front do not change a number. -/
theorem chunkName_injective : Function.Injective chunkName := by
  intro i j h
  have hpad : List.replicate (3 - (decimal i).length) '0' ++ decimal i =
      List.replicate (3 - (decimal j).length) '0' ++ decimal j :=
    List.append_cancel_left (List.append_cancel_right h)
  have hread : ∀ k n, Nat.ofDigitChars 10 (List.replicate k '0' ++ decimal n) 0 = n := by
    intro k n
    rw [Nat.ofDigitChars_append, Nat.ofDigitChars_replicate_zero, Nat.mul_zero]
    exact Nat.ofDigitChars_ten_toDigits
  rw [← hread (3 - (decimal i).length) i, hpad, hread]

theorem quotedPath_pathLine (path : Text) : quotedPath (pathLine path) = some path := by
  have hline : pathLine path = lit "    \"" ++ (path ++ lit "\",") := List.append_assoc ..
  have hpre : (lit "    \"").isPrefixOf (pathLine path) = true := by
    rw [List.isPrefixOf_iff_prefix, hline]
    exact List.prefix_append _ _
  have hsuf : (lit "\",").isSuffixOf (pathLine path) = true := by
    rw [List.isSuffixOf_iff_suffix]
    exact List.suffix_append _ _
  have hdrop : (pathLine path).drop 5 = path ++ lit "\"," := by
    rw [hline]
    exact List.drop_left' rfl
  have hlength : (pathLine path).length - 7 = path.length := by
    have hopen : (lit "    \"").length = 5 := rfl
    have hclose : (lit "\",").length = 2 := rfl
    rw [hline, List.length_append, List.length_append]
    omega
  rw [quotedPath, if_pos ⟨hpre, hsuf⟩, hdrop, hlength, List.take_left]

/-- The loader names its paths, and no line around the table is taken for one. -/
theorem named_loaderLines (paths : List Text) : (loaderLines paths).filterMap quotedPath = paths := by
  have hpaths : (paths.map pathLine).filterMap quotedPath = paths := by
    rw [List.filterMap_map]
    exact (List.filterMap_congr fun path _ => quotedPath_pathLine path).trans List.filterMap_some
  unfold loaderLines
  split
  · next hnil =>
    rw [hnil]
    rfl
  · rw [List.cons_append, List.filterMap_cons, List.filterMap_append, hpaths]
    simp [quotedPath, lit]

/-! ## What has been written -/

/-- The path of a chunk. -/
def chunkPath (index : Nat) : Text := chunkDir ++ chunkName index

/-- The lines of a chunk. -/
def chunkLines (body : List Text) : List Text := chunkHeader :: body.map chinaLine

/-- The directory holds the bodies, in files that are numbered through, and nothing else. -/
structure Files (bodies : List (List Text)) (s : ChunkWriter) : Prop where
  index : s.chunkIndex = bodies.length
  paths : s.chunkPaths = (List.range bodies.length).map chunkPath
  file : ∀ i, s.dir (chunkName i) = bodies[i]?.map chunkLines
  other : ∀ name, (∀ i, name ≠ chunkName i) → s.dir name = none

/-- The writer has the batches: the open one is the last file. -/
structure Holds (b : Batches Text) (s : ChunkWriter) : Prop where
  files : Files b.all s
  entries : s.entriesInChunk = b.current.length
  current : b.current ≠ [] → s.chunkFile = chunkName b.closed.length

/-- Writing the last file, whether it is there already or not. -/
theorem write_last {dir : Dir} {bodies rest : List (List Text)} (hrest : rest.length ≤ 1)
    (hdir : ∀ i, dir (chunkName i) = (bodies ++ rest)[i]?.map chunkLines) (body : List Text) (i : Nat) :
    (dir.write (chunkName bodies.length) (chunkLines body)) (chunkName i) =
      (bodies ++ [body])[i]?.map chunkLines := by
  by_cases hi : i = bodies.length
  · rw [hi, Dir.write, if_pos rfl, List.getElem?_concat_length]
    rfl
  · rw [Dir.write, if_neg (fun h => hi (chunkName_injective h)), hdir]
    by_cases hlt : i < bodies.length
    · rw [List.getElem?_append_left hlt, List.getElem?_append_left hlt]
    · rw [List.getElem?_eq_none (by simp; omega), List.getElem?_eq_none (by simp; omega)]

/-- A new chunk is an empty body more. -/
theorem Files.start {bodies : List (List Text)} {s : ChunkWriter} (h : Files bodies s) :
    Files (bodies ++ [[]]) s.start ∧ s.start.chunkFile = chunkName bodies.length := by
  refine ⟨⟨?_, ?_, fun i => ?_, fun name hname => ?_⟩, ?_⟩
  · rw [List.length_append, ← h.index]
    rfl
  · rw [List.length_append, List.length_singleton, List.range_succ, List.map_append, ← h.paths,
      ← h.index]
    rfl
  · show (s.dir.write (chunkName s.chunkIndex) (chunkLines [])) (chunkName i) = _
    rw [h.index]
    exact write_last (show ([] : List (List Text)).length ≤ 1 from Nat.zero_le 1)
      (by simpa using h.file) [] i
  · show (s.dir.write (chunkName s.chunkIndex) [chunkHeader]) name = none
    rw [Dir.write, if_neg (hname _), h.other name hname]
  · exact congrArg chunkName h.index

/-- A line more for the last file. -/
theorem Files.append {bodies : List (List Text)} {body : List Text} {s s' : ChunkWriter}
    {domain : Text} (h : Files (bodies ++ [body]) s) (hfile : s.chunkFile = chunkName bodies.length)
    (hdir : s'.dir = s.dir.append s.chunkFile (chinaLine domain))
    (hindex : s'.chunkIndex = s.chunkIndex) (hpaths : s'.chunkPaths = s.chunkPaths) :
    Files (bodies ++ [body ++ [domain]]) s' := by
  have hlen : (bodies ++ [body ++ [domain]]).length = (bodies ++ [body]).length := by simp
  have hlast : s.dir (chunkName bodies.length) = some (chunkLines body) := by
    rw [h.file, List.getElem?_concat_length]
    rfl
  refine ⟨?_, ?_, fun i => ?_, fun name hname => ?_⟩
  · rw [hindex, h.index, hlen]
  · rw [hpaths, h.paths, hlen]
  · have hline : (some (chunkLines body)).getD [] ++ [chinaLine domain] = chunkLines (body ++ [domain]) := by
      simp [chunkLines]
    rw [hdir, hfile, Dir.append, hlast, hline]
    exact write_last (show [body].length ≤ 1 from Nat.le_refl 1) h.file _ i
  · rw [hdir, hfile, Dir.append, Dir.write, if_neg (hname _), h.other name hname]

/-- The chunk that a name goes into is open. -/
theorem Holds.opened {b : Batches Text} {s : ChunkWriter} (h : Holds b s) :
    let s' := if s.entriesInChunk = 0 then s.start else s
    Files (b.closed ++ [b.current]) s' ∧ s'.chunkFile = chunkName b.closed.length ∧
      s'.entriesInChunk = b.current.length ∧ s'.count = s.count := by
  have hfiles := h.files
  unfold Batches.all at hfiles
  by_cases hnil : b.current = []
  · have hzero : s.entriesInChunk = 0 := by rw [h.entries, hnil, List.length_nil]
    rw [if_pos hnil] at hfiles
    obtain ⟨hstart, hfile⟩ := hfiles.start
    rw [if_pos hzero, hnil]
    exact ⟨hstart, hfile, rfl, rfl⟩
  · have hpos : s.entriesInChunk ≠ 0 := by
      rw [h.entries]
      exact fun hlen => hnil (List.length_eq_zero_iff.mp hlen)
    rw [if_neg hnil] at hfiles
    rw [if_neg hpos]
    exact ⟨hfiles, h.current hnil, h.entries, rfl⟩

/-- **`Holds.add`** — a name goes where the batches say. -/
theorem Holds.add {n : Nat} {b : Batches Text} {s : ChunkWriter} (h : Holds b s) {domain : Text}
    (hdomain : domain ≠ []) :
    Holds (b.add n domain) (s.add n domain) ∧ (s.add n domain).count = s.count + 1 := by
  obtain ⟨hfiles, hfile, hentries, hcount⟩ := h.opened
  rw [ChunkWriter.add, if_neg hdomain]
  generalize (if s.entriesInChunk = 0 then s.start else s) = s' at hfiles hfile hentries hcount
  refine ⟨⟨?_, ?_, ?_⟩, congrArg (· + 1) hcount⟩
  · rw [Batches.all_add]
    exact hfiles.append hfile rfl rfl rfl
  · show (if n ≤ s'.entriesInChunk + 1 then 0 else s'.entriesInChunk + 1) = _
    rw [hentries, Batches.add]
    split <;> simp
  · unfold Batches.add
    split
    · exact fun hne => absurd rfl hne
    · exact fun _ => hfile

/-- The writer after the whole list. -/
theorem holds_ofList (n : Nat) (domains : List Text) :
    Holds (Batches.ofList n (domains.filter (· ≠ []))) (domains.foldl (ChunkWriter.add n) .init) ∧
      (domains.foldl (ChunkWriter.add n) .init).count = (domains.filter (· ≠ [])).length := by
  have hall : ∀ (domains : List Text) (b : Batches Text) (s : ChunkWriter), Holds b s →
      Holds ((domains.filter (· ≠ [])).foldl (Batches.add n) b)
          (domains.foldl (ChunkWriter.add n) s) ∧
        (domains.foldl (ChunkWriter.add n) s).count = s.count + (domains.filter (· ≠ [])).length := by
    intro domains
    induction domains with
    | nil => exact fun b s h => ⟨h, rfl⟩
    | cons domain domains ih =>
      intro b s h
      by_cases hdomain : domain = []
      · rw [List.filter_cons_of_neg (by simpa using hdomain), List.foldl_cons, ChunkWriter.add,
          if_pos hdomain]
        exact ih b s h
      · rw [List.filter_cons_of_pos (by simpa using hdomain), List.foldl_cons, List.foldl_cons,
          List.length_cons]
        obtain ⟨hadd, hcount⟩ := h.add (n := n) hdomain
        obtain ⟨hrest, hrestCount⟩ := ih _ _ hadd
        exact ⟨hrest, by omega⟩
  have hinit : Holds ⟨[], []⟩ ChunkWriter.init :=
    ⟨⟨rfl, rfl, fun _ => rfl, fun _ _ => rfl⟩, rfl, fun h => absurd rfl h⟩
  obtain ⟨hholds, hcount⟩ := hall domains _ _ hinit
  exact ⟨hholds, hcount.trans (Nat.zero_add _)⟩

/-! ## Reading it back -/

theorem fileAt_chunkPath (w : Written) (i : Nat) : w.fileAt (chunkPath i) = w.dir (chunkName i) := by
  have hpre : chunkDir.isPrefixOf (chunkPath i) = true :=
    List.isPrefixOf_iff_prefix.mpr (List.prefix_append _ _)
  rw [Written.fileAt, if_pos hpre, chunkPath, List.drop_left]

section Back

variable {bodies : List (List Text)} {s : ChunkWriter} {w : Written}

/-- The chunks that the loader names are the files. -/
theorem Files.named (h : Files bodies s) (hloader : w.loader = loaderLines s.chunkPaths) :
    w.named = (List.range bodies.length).map chunkPath := by
  rw [Written.named, hloader, named_loaderLines, h.paths]

theorem Files.fileAt (h : Files bodies s) (hdir : w.dir = s.dir) {i : Nat} (hi : i < bodies.length) :
    w.fileAt (chunkPath i) = some (chunkLines bodies[i]) := by
  rw [fileAt_chunkPath, hdir, h.file, List.getElem?_eq_getElem hi]
  rfl

theorem Files.entries (h : Files bodies s) (hdir : w.dir = s.dir) {i : Nat} (hi : i < bodies.length) :
    w.entries (chunkPath i) = bodies[i].map chinaLine := by
  rw [Written.entries, h.fileAt hdir hi]
  rfl

/-- A file in the directory is a chunk that was written. -/
theorem Files.exists_of_fileAt (h : Files bodies s) (hdir : w.dir = s.dir) {path : Text}
    (hsome : (w.fileAt path).isSome = true) : ∃ i < bodies.length, chunkPath i = path := by
  unfold Written.fileAt at hsome
  split at hsome
  · next hpre =>
    obtain ⟨name, rfl⟩ := List.isPrefixOf_iff_prefix.mp hpre
    rw [List.drop_left, hdir] at hsome
    by_cases hname : ∃ i, name = chunkName i
    · obtain ⟨i, rfl⟩ := hname
      rw [h.file, Option.isSome_map, isSome_getElem?] at hsome
      exact ⟨i, hsome, rfl⟩
    · rw [h.other name fun i hi => hname ⟨i, hi⟩] at hsome
      exact absurd hsome (by simp)
  · exact absurd hsome (by simp)

/-- In the order of the loader, the chunks have the bodies. -/
theorem Files.map_entries (h : Files bodies s) (hdir : w.dir = s.dir)
    (hloader : w.loader = loaderLines s.chunkPaths) :
    w.named.map w.entries = bodies.map (List.map chinaLine) := by
  rw [h.named hloader, List.map_map]
  refine List.ext_getElem (by simp) fun i hi _ => ?_
  rw [List.length_map, List.length_range] at hi
  rw [List.getElem_map, List.getElem_map, List.getElem_range, Function.comp_apply, h.entries hdir hi]

end Back

theorem chunkPath_injective : Function.Injective chunkPath := fun _ _ h =>
  chunkName_injective (List.append_cancel_left h)

/-- **`written_chunked`** — the loader names each chunk once, and the chunks hold the non-empty domains
in order, `n` in each but the last. -/
theorem written_chunked {n : Nat} (hn : 1 ≤ n) (domains : List Text) :
    Chunked n (domains.filter (· ≠ [])) (writeChinalistChunks n domains) := by
  obtain ⟨hholds, hcount⟩ := holds_ofList n domains
  have hsized := Batches.Sized.ofList hn (domains.filter (· ≠ []))
  have hflat := Batches.flatten_all (n := n) (domains.filter (· ≠ []))
  have hfiles := hholds.files
  generalize Batches.ofList n (domains.filter (· ≠ [])) = b at hsized hflat hfiles
  set w := writeChinalistChunks n domains with hw
  have hnamed : w.named = (List.range b.all.length).map chunkPath := hfiles.named rfl
  have hentries : w.named.map w.entries = b.all.map (List.map chinaLine) := hfiles.map_entries rfl rfl
  have hfile : ∀ path ∈ w.named, w.fileAt path = some (chunkHeader :: w.entries path) := by
    intro path hpath
    rw [hnamed] at hpath
    obtain ⟨i, hi, rfl⟩ := List.mem_map.mp hpath
    have hlt := List.mem_range.mp hi
    rw [hfiles.entries rfl hlt, hfiles.fileAt rfl hlt]
    rfl
  refine ⟨?_, fun path => ⟨fun hpath => ?_, fun hsome => ?_⟩, hfile, ?_, fun path hpath => ?_,
    fun path hpath => ?_, congrArg decimal hcount⟩
  · rw [hnamed]
    exact List.Nodup.map chunkPath_injective List.nodup_range
  · rw [hfile path hpath]
    rfl
  · obtain ⟨i, hi, rfl⟩ := hfiles.exists_of_fileAt rfl hsome
    rw [hnamed]
    exact List.mem_map_of_mem (List.mem_range.mpr hi)
  · rw [List.flatMap_def, hentries, ← List.map_flatten, hflat]
  · have hmem := List.mem_map_of_mem (f := w.entries) hpath
    rw [hentries] at hmem
    obtain ⟨body, hbody, hbodyEq⟩ := List.mem_map.mp hmem
    rw [← hbodyEq, List.length_map]
    exact Batches.length_mem_all hn hsized hbody
  · have hmem := List.mem_map_of_mem (f := w.entries) hpath
    rw [List.map_dropLast, hentries, ← List.map_dropLast] at hmem
    obtain ⟨body, hbody, hbodyEq⟩ := List.mem_map.mp hmem
    rw [← hbodyEq, List.length_map]
    exact Batches.length_mem_dropLast_all hsized hbody

/-- Four names in chunks of two, with an empty line among them. -/
theorem four_names_chunked :
    1 ≤ 2 ∧ Chunked 2 ([lit "a.cn", lit "b.cn", [], lit "c.cn", lit "d.cn"].filter (· ≠ []))
      (writeChinalistChunks 2 [lit "a.cn", lit "b.cn", [], lit "c.cn", lit "d.cn"]) :=
  ⟨by omega, written_chunked (by omega) _⟩

end ProxyGateway.Dns
