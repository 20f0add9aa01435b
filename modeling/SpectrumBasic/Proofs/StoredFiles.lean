import SpectrumBasic.Proofs.SourceLines
import SpectrumBasic.Storage

/-!
# Files under their paths

A path is a root and the names that lead somewhere, its `steps`. Normalizing a path keeps both
(`root_normalize`, `steps_normalize`), so that a normalized path is normal, and it leads to where the
path leads if that leads anywhere (`namesFolder_of_locate`).

A file that was written is read back from its path (`Storage.readInput_of_writeBytes`), since writing
takes no folder away (`isFolder_put_iff`), and nothing else is different then (`Directory.written_put`).
-/

namespace SpectrumBasic

/-! ## Pieces of a text -/

/-- A piece is made of characters of the text, none of which separates anything. -/
theorem Text.of_mem_pieces {separates : Char → Bool} {text piece : Text}
    (h : piece ∈ Text.pieces separates text) {c : Char} (hc : c ∈ piece) :
    c ∈ text ∧ separates c = false := by
  induction text generalizing piece with
  | nil =>
    obtain rfl := List.mem_singleton.mp h
    cases hc
  | cons d text ih =>
    have hlater : ∀ piece ∈ Text.pieces separates text, c ∈ piece →
        c ∈ d :: text ∧ separates c = false := by
      intro piece hpiece hc
      obtain ⟨hmem, hsep⟩ := ih hpiece hc
      exact ⟨List.mem_cons_of_mem d hmem, hsep⟩
    cases hd : separates d with
    | true =>
      rw [Text.pieces_cons_of_separates hd] at h
      rcases List.mem_cons.mp h with rfl | hother
      · cases hc
      · exact hlater piece hother hc
    | false =>
      -- the character joins the first piece of what follows it
      obtain ⟨first, others, hpieces⟩ := Text.exists_pieces_eq_cons separates text
      rw [hpieces, List.forall_mem_cons] at hlater
      rw [← List.singleton_append, Text.pieces_append (by simpa using hd) hpieces] at h
      rcases List.mem_cons.mp h with rfl | hother
      · rcases List.mem_cons.mp hc with rfl | hfirst
        · exact ⟨List.mem_cons_self, hd⟩
        · exact hlater.1 hfirst
      · exact hlater.2 piece hother hc

/-- Texts with a separator between each two of them are the pieces of the whole. -/
theorem Text.pieces_intercalate {separator : Char} {texts : List Text} (hne : texts ≠ [])
    (h : ∀ text ∈ texts, separator ∉ text) :
    Text.pieces (· = separator) ([separator].intercalate texts) = texts := by
  have hplain : ∀ {text : Text}, separator ∉ text → ∀ c ∈ text, decide (c = separator) = false := by
    intro text htext c hc
    exact decide_eq_false fun heq => htext (heq ▸ hc)
  induction texts with
  | nil => exact absurd rfl hne
  | cons text texts ih =>
    rw [List.forall_mem_cons] at h
    cases texts with
    | nil =>
      have hlast := Text.pieces_append (hplain h.1)
        (show Text.pieces (· = separator) [] = [[]] from rfl)
      rw [List.append_nil] at hlast
      rw [List.intercalate_singleton, hlast]
    | cons next texts =>
      rw [List.intercalate_cons_cons, List.append_assoc, List.singleton_append]
      have hrest : Text.pieces (· = separator) (separator :: [separator].intercalate (next :: texts)) =
          [] :: Text.pieces (· = separator) ([separator].intercalate (next :: texts)) :=
        Text.pieces_cons_of_separates (decide_eq_true rfl) _
      rw [ih (List.cons_ne_nil _ _) h.2] at hrest
      rw [Text.pieces_append (hplain h.1) hrest, List.append_nil]

/-! ## Paths -/

namespace Path

/-- Whether a name leads anywhere. -/
def leads (name : String) : Bool := name != "" && name != "."

/-- The names of a path that lead somewhere. -/
def steps (path : String) : List String := (names path).filter leads

/-- The root and the names that make up a normalized path. -/
def joined (path : String) : String := root path ++ "/".intercalate (steps path)

theorem normalize_eq (path : String) :
    normalize path = if (joined path).isEmpty then "." else joined path := rfl

variable {path : String} {list : List String}

theorem slash_not_mem_of_mem_names {name : String} (h : name ∈ names path) :
    '/' ∉ name.toList := by
  obtain ⟨piece, hpiece, rfl⟩ := List.mem_map.mp h
  rw [String.toList_ofList]
  intro hslash
  exact absurd (Text.of_mem_pieces hpiece hslash).2 (by decide)

/-- Names with slashes between them are the names of the path they make up. -/
theorem names_intercalate (hne : list ≠ []) (h : ∀ name ∈ list, '/' ∉ name.toList) :
    names ("/".intercalate list) = list := by
  have hpieces : Text.pieces (· = '/') (['/'].intercalate (list.map String.toList)) =
      list.map String.toList := by
    refine Text.pieces_intercalate (fun hnil => hne (List.map_eq_nil_iff.mp hnil)) ?_
    simpa using h
  rw [names, String.toList_intercalate]
  show (Text.pieces (· = '/') (['/'].intercalate (list.map String.toList))).map String.ofList = list
  rw [hpieces, List.map_map]
  simp

/-- Names that lead somewhere are the steps of the path they make up. -/
theorem steps_intercalate (h : ∀ name ∈ list, leads name = true ∧ '/' ∉ name.toList) :
    steps ("/".intercalate list) = list := by
  cases list with
  | nil => decide
  | cons name others =>
    rw [steps, names_intercalate (List.cons_ne_nil _ _) fun name hname => (h name hname).2,
      List.filter_eq_self]
    exact fun name hname => (h name hname).1

/-- A slash in front is no step. -/
theorem steps_slash (path : String) : steps ("/" ++ path) = steps path := by
  have hnames : names ("/" ++ path) = "" :: names path := by
    rw [names, String.toList_append]
    show (Text.pieces (· = '/') ('/' :: path.toList)).map String.ofList = _
    rw [Text.pieces_cons_of_separates (by decide), List.map_cons]
    rfl
  rw [steps, hnames, List.filter_cons_of_neg (by decide)]
  rfl

theorem root_cases (path : String) : root path = "" ∨ root path = "/" ∨ root path = "//" := by
  unfold root
  split
  · exact .inl rfl
  · exact .inr (.inr rfl)
  · exact .inr (.inl rfl)

theorem of_mem_steps {name : String} (h : name ∈ steps path) :
    leads name = true ∧ '/' ∉ name.toList := by
  obtain ⟨hname, hleads⟩ := List.mem_filter.mp h
  exact ⟨hleads, slash_not_mem_of_mem_names hname⟩

theorem steps_joined (path : String) : steps (joined path) = steps path := by
  have hsteps : steps ("/".intercalate (steps path)) = steps path :=
    steps_intercalate fun name => of_mem_steps
  rw [joined]
  rcases root_cases path with hroot | hroot | hroot
  · rw [hroot, String.empty_append, hsteps]
  · rw [hroot, steps_slash, hsteps]
  · rw [hroot, show ("//" : String) = "/" ++ "/" from rfl, String.append_assoc, steps_slash,
      steps_slash, hsteps]

/-- Normalizing keeps the steps. -/
theorem steps_normalize (path : String) : steps (normalize path) = steps path := by
  rw [normalize_eq]
  split
  · rename_i hempty
    rw [← steps_joined path, String.isEmpty_iff.mp hempty]
    decide
  · exact steps_joined path

/-- What follows the root of a normalized path is no slash. -/
theorem head?_intercalate (h : ∀ name ∈ list, leads name = true ∧ '/' ∉ name.toList) :
    ("/".intercalate list).toList.head? ≠ some '/' := by
  cases list with
  | nil => decide
  | cons name others =>
    obtain ⟨hleads, hslash⟩ := h name List.mem_cons_self
    rw [String.toList_intercalate, List.map_cons]
    cases hname : name.toList with
    | nil =>
      rw [String.toList_eq_nil_iff.mp hname] at hleads
      exact absurd hleads (by decide)
    | cons c rest =>
      rw [hname] at hslash
      rw [List.intercalate_cons_cons_left, List.head?_cons]
      intro hc
      exact hslash (Option.some.inj hc ▸ List.mem_cons_self)

/-- The root of some slashes and a text without a slash in front. -/
theorem root_append {slashes rest : String} (h : rest.toList.head? ≠ some '/')
    (hslashes : slashes = "" ∨ slashes = "/" ∨ slashes = "//") :
    root (slashes ++ rest) = slashes := by
  have hall : ∀ c ∈ slashes.toList, (fun c => decide (c = '/')) c = true := by
    rcases hslashes with rfl | rfl | rfl <;> simp
  have hrest : rest.toList.takeWhile (fun c => decide (c = '/')) = [] := by
    cases hlist : rest.toList with
    | nil => rfl
    | cons c others =>
      rw [hlist, List.head?_cons] at h
      exact List.takeWhile_cons_of_neg fun hc => h (by rw [of_decide_eq_true hc])
  rw [root, String.toList_append, List.takeWhile_append_of_pos hall, hrest, List.append_nil]
  rcases hslashes with rfl | rfl | rfl <;> rfl

/-- Normalizing keeps the root. -/
theorem root_normalize (path : String) : root (normalize path) = root path := by
  have hjoined : root (joined path) = root path :=
    root_append (head?_intercalate fun name => of_mem_steps) (root_cases path)
  rw [normalize_eq]
  split
  · rename_i hempty
    rw [← hjoined, String.isEmpty_iff.mp hempty]
    decide
  · exact hjoined

@[simp] theorem normalize_normalize (path : String) : normalize (normalize path) = normalize path := by
  have hjoined : joined (normalize path) = joined path := by
    rw [joined, root_normalize, steps_normalize, joined]
  rw [normalize_eq (normalize path), hjoined, ← normalize_eq]

/-- A path starts with a slash if it has a root. -/
theorem root_eq_empty_iff (path : String) : root path = "" ↔ path.toList.head? ≠ some '/' := by
  unfold root
  cases hlist : path.toList with
  | nil => decide
  | cons c rest =>
    by_cases hc : c = '/'
    · subst hc
      rw [List.takeWhile_cons_of_pos (by decide), List.length_cons]
      split <;> simp_all
    · rw [List.takeWhile_cons_of_neg (by simpa using hc)]
      simpa using hc

theorem head?_normalize (path : String) :
    (normalize path).toList.head? = some '/' ↔ path.toList.head? = some '/' := by
  have hroot := root_eq_empty_iff (normalize path)
  rw [root_normalize, root_eq_empty_iff] at hroot
  exact Decidable.not_iff_not.mp hroot.symm

/-- Between names there are slashes. -/
theorem of_mem_intercalate {c : Char} (h : c ∈ ("/".intercalate list).toList) :
    c = '/' ∨ ∃ name ∈ list, c ∈ name.toList := by
  induction list with
  | nil => cases h
  | cons name others ih =>
    cases others with
    | nil =>
      rw [String.intercalate_singleton] at h
      exact .inr ⟨name, List.mem_cons_self, h⟩
    | cons next others =>
      rw [String.intercalate_cons_cons, String.toList_append, String.toList_append] at h
      rcases List.mem_append.mp h with hfirst | hlater
      · rcases List.mem_append.mp hfirst with hname | hslash
        · exact .inr ⟨name, List.mem_cons_self, hname⟩
        · exact .inl (List.mem_singleton.mp hslash)
      · rcases ih hlater with hslash | ⟨other, hother, hc⟩
        · exact .inl hslash
        · exact .inr ⟨other, List.mem_cons_of_mem name hother, hc⟩

/-- Normalizing puts no characters into a path but slashes and a point. -/
theorem mem_of_mem_normalize {c : Char} (h : c ∈ (normalize path).toList) :
    c ∈ path.toList ∨ c = '/' ∨ c = '.' := by
  rw [normalize_eq] at h
  split at h
  · exact .inr (.inr (List.mem_singleton.mp h))
  · rw [joined, String.toList_append] at h
    rcases List.mem_append.mp h with hroot | hsteps
    · have hslashes : c = '/' := by
        rcases root_cases path with hr | hr | hr <;> rw [hr] at hroot
        · cases hroot
        · exact List.mem_singleton.mp hroot
        · simpa using hroot
      exact .inr (.inl hslashes)
    · rcases of_mem_intercalate hsteps with hslash | ⟨name, hname, hc⟩
      · exact .inr (.inl hslash)
      · obtain ⟨piece, hpiece, rfl⟩ := List.mem_map.mp (List.mem_filter.mp hname).1
        rw [String.toList_ofList] at hc
        exact .inl (Text.of_mem_pieces hpiece hc).1

theorem hasNull_normalize (h : hasNull path = false) : hasNull (normalize path) = false := by
  simp only [hasNull, Bool.eq_false_iff, ne_eq, List.contains_iff_mem] at h ⊢
  intro hnull
  rcases mem_of_mem_normalize hnull with hmem | hchar | hchar
  · exact h hmem
  · exact absurd hchar (by decide)
  · exact absurd hchar (by decide)

end Path

/-! ## Places -/

namespace Directory

variable {dir after : Directory} {place found : List String} {path : String} {bytes : Bytes}

/-- Names that lead nowhere can be left out of a way. -/
theorem walk_filter_leads {list : List String} (h : dir.walk place list = .ok found) :
    dir.walk place (list.filter Path.leads) = .ok found := by
  induction list generalizing place with
  | nil => exact h
  | cons name rest ih =>
    unfold walk at h
    split at h
    · rename_i hfolder
      split at h
      · rename_i hsize
        have hrest := ih h
        by_cases hleads : Path.leads name = true
        · rw [List.filter_cons_of_pos hleads, walk, if_pos hfolder, if_pos hsize]
          exact hrest
        · have hstay : enter place name = place := by
            have hname : (name == "" || name == ".") = true := by
              simpa [Path.leads, Classical.or_iff_not_imp_left] using hleads
            rw [enter, if_pos hname]
          rw [List.filter_cons_of_neg hleads, ← hstay]
          exact hrest
      · cases h
    · split at h <;> cases h

/-- Where a path starts to lead from. -/
def origin (path : String) : List String := if path.toList.head? = some '/' then ["/"] else []

/-- A path leads where its steps lead. -/
theorem walk_steps_of_locate (h : dir.locate path = .ok place) :
    dir.walk (origin path) (Path.steps path) = .ok place := by
  unfold locate at h
  split at h
  · cases h
  · split at h
    · cases h
    · exact walk_filter_leads h

/-- A path names no folder if it leads to none when it is normalized. -/
theorem namesFolder_of_locate (h : dir.locate (Path.normalize path) = .ok place)
    (hfile : dir.isFolder place = false) : dir.namesFolder path = false := by
  have hsteps := walk_steps_of_locate h
  rw [Path.steps_normalize, origin, ite_cond_congr (propext (Path.head?_normalize path))] at hsteps
  unfold namesFolder
  cases hlocate : dir.locate path with
  | error problem => rfl
  | ok other =>
    have hother := walk_steps_of_locate hlocate
    obtain rfl := Except.ok.inj (hother.symm.trans hsteps)
    exact hfile

/-! ## Writing -/

/-- What writing does to the files: the one at a place has the bytes, and nothing else is different. -/
structure Written (dir : Directory) (place : List String) (bytes : Bytes) (after : Directory) :
    Prop where
  contents : after.contents? place = some bytes
  others : ∀ other, other ≠ place → after.contents? other = dir.contents? other
  folders : after.folders = dir.folders

/-- A place is a folder after a file was put somewhere if it was one or leads there. -/
theorem isFolder_put_iff {other : List String} :
    (dir.put place bytes).isFolder other = true ↔
      dir.isFolder other = true ∨ (other <+: place ∧ other ≠ place) := by
  have hput : ((dir.put place bytes).files.any fun entry =>
        other.isPrefixOf entry.1 && other != entry.1) = true ↔
      (dir.files.any fun entry => other.isPrefixOf entry.1 && other != entry.1) = true ∨
        (other <+: place ∧ other ≠ place) := by
    simp only [put, List.any_cons, List.any_filter, Bool.or_eq_true, Bool.and_eq_true,
      List.any_eq_true, List.isPrefixOf_iff_prefix, bne_iff_ne]
    constructor
    · rintro (hplace | ⟨entry, hentry, -, hleads⟩)
      · exact .inr hplace
      · exact .inl ⟨entry, hentry, hleads⟩
    · rintro (⟨entry, hentry, hleads⟩ | hplace)
      · by_cases hfile : entry.1 = place
        · exact .inl (hfile ▸ hleads)
        · exact .inr ⟨entry, hentry, hfile, hleads⟩
      · exact .inl hplace
  have hfolders : (dir.put place bytes).folders = dir.folders := rfl
  simp only [isFolder, hfolders, Bool.or_eq_true, hput, or_assoc]

/-- A file that is put somewhere is written there. -/
theorem written_put (dir : Directory) (place : List String) (bytes : Bytes) :
    dir.Written place bytes (dir.put place bytes) where
  contents := List.lookup_cons_self
  others other hother := by
    have hfilter : ∀ files : List (List String × Bytes),
        (files.filter fun entry => entry.1 != place).lookup other = files.lookup other := by
      intro files
      induction files with
      | nil => rfl
      | cons entry files ih =>
        obtain ⟨file, contents⟩ := entry
        by_cases hfile : file = place
        · subst hfile
          rw [List.filter_cons_of_neg (by simp), ih, List.lookup_cons, beq_false_of_ne hother]
        · rw [List.filter_cons_of_pos (by simpa using hfile), List.lookup_cons, List.lookup_cons, ih]
    rw [contents?, put, List.lookup_cons, beq_false_of_ne hother]
    exact hfilter dir.files
  folders := rfl

/-- A way that leads somewhere still does where there are more folders. -/
theorem walk_of_isFolder {list : List String}
    (hfolder : ∀ other, dir.isFolder other = true → after.isFolder other = true)
    (h : dir.walk place list = .ok found) : after.walk place list = .ok found := by
  induction list generalizing place with
  | nil => exact h
  | cons name rest ih =>
    unfold walk at h
    split at h
    · rename_i hplace
      split at h
      · rename_i hsize
        rw [walk, if_pos (hfolder place hplace), if_pos hsize]
        exact ih h
      · cases h
    · split at h <;> cases h

/-- A path still leads to where a file was put. -/
theorem locate_put {other : List String} (h : dir.locate path = .ok other) :
    (dir.put place bytes).locate path = .ok other := by
  unfold locate at h ⊢
  split
  · rename_i hempty
    rw [if_pos hempty] at h
    cases h
  · rename_i hempty
    rw [if_neg hempty] at h
    split
    · rename_i hlong
      rw [if_pos hlong] at h
      cases h
    · rename_i hlong
      rw [if_neg hlong] at h
      exact walk_of_isFolder (fun other hother => isFolder_put_iff.mpr (.inl hother)) h

/-- A file can be written if its path leads to no folder. -/
theorem write_eq_ok_iff : dir.write path bytes = .ok after ↔
    ∃ place, dir.locate path = .ok place ∧ dir.isFolder place = false ∧
      after = dir.put place bytes := by
  unfold write
  cases hlocate : dir.locate path with
  | error problem =>
    simp only [reduceCtorEq, false_iff]
    rintro ⟨place, hplace, -⟩
    cases hplace
  | ok place =>
    simp only [Except.ok.injEq, exists_eq_left']
    cases hfolder : dir.isFolder place with
    | true => simp
    | false => simp [eq_comm]

theorem isFolder_put_self : (dir.put place bytes).isFolder place = dir.isFolder place := by
  rw [Bool.eq_iff_iff, isFolder_put_iff]
  simp

theorem read_put (hlocate : dir.locate path = .ok place) (hfile : dir.isFolder place = false) :
    (dir.put place bytes).read path = .ok bytes := by
  rw [read, locate_put hlocate]
  simp only [isFolder_put_self, hfile, (written_put dir place bytes).contents, Bool.false_eq_true,
    if_false]

end Directory

/-! ## Files by their paths -/

namespace Storage

variable {dir after : Directory} {path : String} {bytes : Bytes}

/-- A file is written where its path leads. -/
theorem writeBytes_eq_ok_iff : writeBytes dir path bytes = .ok after ↔
    Path.hasNull path = false ∧ ∃ place, dir.locate (Path.normalize path) = .ok place ∧
      dir.isFolder place = false ∧ after = dir.put place bytes := by
  unfold writeBytes
  cases hnull : Path.hasNull path with
  | true => simp
  | false =>
    simp only [Bool.false_eq_true, if_false, true_and, ← Directory.write_eq_ok_iff]
    cases dir.write (Path.normalize path) bytes with
    | error fault => exact ⟨nofun, nofun⟩
    | ok written =>
      have hmap : (Except.ok written : Except FileFault Directory).mapError Failure.file =
          .ok written := rfl
      rw [hmap, Except.ok.injEq, Except.ok.injEq]

/-- A file is read from where its path leads. -/
theorem readInput_eq_ok_iff : readInput dir path = .ok bytes ↔
    Path.hasNull (Path.normalize path) = false ∧
      dir.read (Path.normalize path) = .ok bytes := by
  cases hnull : Path.hasNull (Path.normalize path) with
  | true => simp [readInput, hnull]
  | false =>
    cases hread : dir.read (Path.normalize path) with
    | error fault => simp [readInput, hnull, hread]
    | ok contents => simp [readInput, hnull, hread]

theorem ok_bind {ε α β : Type} (a : α) (next : α → Except ε β) :
    (Except.ok a >>= next) = next a := rfl

/-- The lines of a source are those of its text. -/
theorem readSource_eq_ok_iff {settings : Settings} {codecs : Codecs} {lines : List Text} :
    readSource settings dir path codecs = .ok lines ↔
      ∃ bytes codec text, readInput dir path = .ok bytes ∧
        codecs.find settings.encoding = .ok codec ∧
        codec.decode bytes = .ok text ∧ text.lines = lines := by
  unfold readSource
  cases readInput dir path with
  | error failure =>
    refine ⟨nofun, ?_⟩
    rintro ⟨_, _, _, hbytes, -⟩
    cases hbytes
  | ok bytes =>
    rw [ok_bind]
    dsimp only
    cases codecs.find settings.encoding with
    | error failure =>
      refine ⟨nofun, ?_⟩
      rintro ⟨_, _, _, -, hcodec, -⟩
      cases hcodec
    | ok codec =>
      rw [ok_bind]
      simp only [Except.ok.injEq, exists_eq_left', exists_and_left]
      cases codec.decode bytes with
      | ok text => simp
      | error fault => cases fault <;> simp

theorem readInput_of_writeBytes (h : writeBytes dir path bytes = .ok after) :
    readInput after path = .ok bytes := by
  obtain ⟨hnull, place, hplace, hfile, rfl⟩ := writeBytes_eq_ok_iff.mp h
  exact readInput_eq_ok_iff.mpr ⟨Path.hasNull_normalize hnull, Directory.read_put hplace hfile⟩

theorem writeBytes_again (h : writeBytes dir path bytes = .ok after) (again : Bytes) :
    ∃ later, writeBytes after path again = .ok later := by
  obtain ⟨hnull, place, hplace, hfile, rfl⟩ := writeBytes_eq_ok_iff.mp h
  refine ⟨_, writeBytes_eq_ok_iff.mpr ⟨hnull, place, Directory.locate_put hplace, ?_, rfl⟩⟩
  rw [Directory.isFolder_put_self, hfile]

theorem namesFolder_of_writeBytes (h : writeBytes dir path bytes = .ok after) :
    dir.namesFolder path = false := by
  obtain ⟨-, place, hplace, hfile, -⟩ := writeBytes_eq_ok_iff.mp h
  exact Directory.namesFolder_of_locate hplace hfile

/-- A file that can be read is named as a file. -/
theorem namesFolder_of_readInput (h : readInput dir path = .ok bytes) :
    dir.namesFolder path = false := by
  have hread := (readInput_eq_ok_iff.mp h).2
  unfold Directory.read at hread
  split at hread
  · cases hread
  · rename_i place hplace
    split at hread
    · cases hread
    · rename_i hfile
      exact Directory.namesFolder_of_locate hplace (Bool.eq_false_iff.mpr hfile)

end Storage

end SpectrumBasic
