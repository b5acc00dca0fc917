import Mathlib.Data.List.Basic
import Blueprints.Storage.FileTree

/-! # Paths and file trees

    A file in a folder is found behind the place that the folder's path leads
    to (`locate_below`).  So a text that is written there is read there, and
    what is read elsewhere stays (`FolderAt.writeText_eq_ok_iff`,
    `FolderAt.readText_eq_ok_iff`); in an empty folder the file is then the
    only thing (`list_written`).

    Making folders leaves every folder in its place, makes none deeper than
    the path goes (`depth_of_makeFoldersUp`) and ends with the path leading to
    a folder (`exists_folderAt_of_makeFolders`), which is not made again
    (`FolderAt.makeFolders_eq`). -/

namespace Blueprints

/-! ## Paths -/

theorem splitSlash_ne_nil (cs : List Char) : splitSlash cs ≠ [] := by
  cases cs with
  | nil => simp [splitSlash]
  | cons c cs =>
      rw [splitSlash]
      cases splitSlash cs with
      | nil => simp
      | cons part rest =>
          by_cases hc : c = '/'
          · simp [hc]
          · simp [hc]

/-- A slash ends an empty part. -/
theorem splitSlash_slash (cs : List Char) : splitSlash ('/' :: cs) = [] :: splitSlash cs := by
  rw [splitSlash]
  cases hcs : splitSlash cs with
  | nil => exact absurd hcs (splitSlash_ne_nil cs)
  | cons part rest => rfl

theorem splitSlash_cons {c : Char} (hc : c ≠ '/') {cs part : List Char} {rest : List (List Char)}
    (hcs : splitSlash cs = part :: rest) : splitSlash (c :: cs) = (c :: part) :: rest := by
  rw [splitSlash, hcs]
  simp [hc]

/-- A slash parts the texts in front of it from those behind it. -/
theorem splitSlash_append (cs ds : List Char) :
    splitSlash (cs ++ '/' :: ds) = splitSlash cs ++ splitSlash ds := by
  induction cs with
  | nil => exact splitSlash_slash ds
  | cons c cs ih =>
      by_cases hc : c = '/'
      · subst hc
        rw [List.cons_append, splitSlash_slash, splitSlash_slash, ih]
        rfl
      · obtain ⟨part, rest, hcs⟩ := List.exists_cons_of_ne_nil (splitSlash_ne_nil cs)
        rw [List.cons_append, splitSlash_cons hc (ih.trans (congrArg (· ++ splitSlash ds) hcs)),
          splitSlash_cons hc hcs]
        rfl

/-- A text without a slash is one part. -/
theorem splitSlash_of_notMem {cs : List Char} (h : '/' ∉ cs) : splitSlash cs = [cs] := by
  induction cs with
  | nil => rfl
  | cons c cs ih =>
      rw [List.mem_cons, not_or] at h
      exact splitSlash_cons (Ne.symm h.1) (ih h.2)

/-- A character that is no slash stands in one of the texts. -/
theorem exists_mem_splitSlash {cs : List Char} {c : Char} (hc : c ∈ cs) (hslash : c ≠ '/') :
    ∃ part ∈ splitSlash cs, c ∈ part := by
  obtain ⟨front, back, rfl⟩ := List.append_of_mem hc
  clear hc
  induction front with
  | nil =>
      obtain ⟨part, rest, hback⟩ := List.exists_cons_of_ne_nil (splitSlash_ne_nil back)
      rw [List.nil_append, splitSlash_cons hslash hback]
      exact ⟨c :: part, List.mem_cons_self .., List.mem_cons_self ..⟩
  | cons d front ih =>
      obtain ⟨part, hpart, hmem⟩ := ih
      by_cases hd : d = '/'
      · subst hd
        rw [List.cons_append, splitSlash_slash]
        exact ⟨part, List.mem_cons_of_mem _ hpart, hmem⟩
      · obtain ⟨first, rest, hsplit⟩ :=
          List.exists_cons_of_ne_nil (splitSlash_ne_nil (front ++ c :: back))
        rw [List.cons_append, splitSlash_cons hd hsplit]
        rw [hsplit] at hpart
        rcases List.mem_cons.1 hpart with rfl | hrest
        · exact ⟨d :: part, List.mem_cons_self .., List.mem_cons_of_mem _ hmem⟩
        · exact ⟨part, List.mem_cons_of_mem _ hrest, hmem⟩

namespace PathParts

/-- A path with a character other than a slash has a part. -/
theorem parts_ne_nil {path : String} {c : Char} (hc : c ∈ path.toList) (hslash : c ≠ '/') :
    (PathParts.of path).parts ≠ [] := by
  obtain ⟨part, hpart, hmem⟩ := exists_mem_splitSlash hc hslash
  have hkept : part ∈ (splitSlash path.toList).filter (!·.isEmpty) :=
    List.mem_filter.2 ⟨hpart, by simpa using List.ne_nil_of_mem hmem⟩
  intro hnil
  rw [List.map_eq_nil_iff.1 hnil] at hkept
  cases hkept

/-- The parts of a path below another are its own behind those of the other. -/
theorem of_append {base name : String} (hbase : base.toList ≠ []) (hname : name.toList ≠ [])
    (hslash : '/' ∉ name.toList) :
    PathParts.of (base ++ "/" ++ name) = ⟨(PathParts.of base).parts ++ [name],
      isAbsolutePath base, false⟩ := by
  have hchars : (base ++ "/" ++ name).toList = base.toList ++ '/' :: name.toList := by
    rw [String.toList_append, String.toList_append, List.append_assoc]
    rfl
  have hparts : (PathParts.of (base ++ "/" ++ name)).parts
      = (PathParts.of base).parts ++ [name] := by
    show ((splitSlash (base ++ "/" ++ name).toList).filter (!·.isEmpty)).map String.ofList = _
    rw [hchars, splitSlash_append, splitSlash_of_notMem hslash, List.filter_append,
      List.map_append]
    simp [hname, PathParts.of]
  have habsolute : isAbsolutePath (base ++ "/" ++ name) = isAbsolutePath base := by
    rw [isAbsolutePath, isAbsolutePath, hchars, List.head?_append_of_ne_nil _ hbase]
  have hend : endsInSlash (base ++ "/" ++ name) = false := by
    rw [endsInSlash, hchars, List.getLast?_append_of_ne_nil _ (List.cons_ne_nil _ _),
      List.getLast?_cons_of_ne_nil hname, beq_eq_false_iff_ne]
    intro hlast
    exact hslash (List.mem_of_getLast? hlast)
  rw [← hparts, ← habsolute, ← hend]
  rfl

end PathParts

namespace FileTree

variable {t t' : FileTree} {loc : Location}

/-! ## Following paths -/

/-- **To follow two lists of parts** is to follow the second from where the first
    has led. -/
theorem follow_append (t : FileTree) (xs ys : List String) (loc : Location) :
    t.follow loc (xs ++ ys) = (t.follow loc xs).bind fun l => t.follow l ys := by
  induction xs generalizing loc with
  | nil => rfl
  | cons x xs ih =>
      rw [List.cons_append, follow, follow]
      cases t.entry? loc with
      | none => rfl
      | some entry =>
          cases entry with
          | file text => rfl
          | folder =>
              by_cases hdot : x == "."
              · simp only [hdot, if_true, ih]
              · by_cases hup : x == ".."
                · simp only [hdot, hup, if_true, ih]
                  rfl
                · simp only [hdot, hup, ih]
                  rfl

/-- Where a path without `..` leads: to its parts behind the start, but for
    those that stay. -/
theorem follow_eq_append {parts : List String} (hup : ".." ∉ parts) {l : Location}
    (h : t.follow loc parts = .ok l) : l = loc ++ parts.filter (· != ".") := by
  induction parts generalizing loc with
  | nil =>
      cases h
      simp
  | cons part rest ih =>
      rw [List.mem_cons, not_or] at hup
      rw [follow] at h
      cases hentry : t.entry? loc with
      | none =>
          rw [hentry] at h
          cases h
      | some entry =>
          rw [hentry] at h
          cases entry with
          | file text => cases h
          | folder =>
              by_cases hdot : part = "."
              · rw [ih hup.2 (by simpa [hdot] using h)]
                simp [hdot]
              · rw [ih hup.2 (by simpa [hdot, Ne.symm hup.1] using h)]
                simp [hdot]

/-- From the top, a path that does not go up leads to its own parts. -/
theorem locate_eq {path : PathParts} (hworking : t.working = []) (hup : ".." ∉ path.parts)
    (h : t.locate path = .ok loc) : loc = path.parts.filter (· != ".") := by
  rw [locate, hworking] at h
  by_cases habsolute : path.isAbsolute = true
  · rw [if_pos habsolute] at h
    exact follow_eq_append hup h
  · rw [if_neg habsolute] at h
    by_cases hparts : path.parts.isEmpty = true
    · rw [if_pos hparts] at h
      cases h
    · rw [if_neg hparts] at h
      exact follow_eq_append hup h

/-- The top is a folder, and so is what is listed as one. -/
theorem entry?_eq_folder_iff : t.entry? loc = some .folder ↔ loc = [] ∨ loc ∈ t.folders := by
  rw [ entry?]
  by_cases hloc : loc = [] ∨ loc ∈ t.folders
  · simp [hloc]
  · rw [if_neg (by simpa using hloc)]
    simp [hloc]

/-- Every folder of a tree is one of another, with the same working folder. -/
structure Within (t t' : FileTree) : Prop where
  working : t'.working = t.working
  folder : ∀ loc, t.entry? loc = some .folder → t'.entry? loc = some .folder

namespace Within

/-- More folders keep those that there were. -/
theorem of_folders (hworking : t'.working = t.working)
    (h : ∀ loc ∈ t.folders, loc ∈ t'.folders) : t.Within t' where
  working := hworking
  folder := by
    intro loc hloc
    rw [entry?_eq_folder_iff] at hloc ⊢
    exact hloc.imp_right (h loc)

/-- What can be followed can be followed with more folders too. -/
theorem follow (h : t.Within t') {parts : List String} {l : Location}
    (hl : t.follow loc parts = .ok l) : t'.follow loc parts = .ok l := by
  induction parts generalizing loc with
  | nil => exact hl
  | cons part rest ih =>
      rw [FileTree.follow] at hl ⊢
      cases hentry : t.entry? loc with
      | none =>
          rw [hentry] at hl
          cases hl
      | some entry =>
          rw [hentry] at hl
          cases entry with
          | file text => cases hl
          | folder =>
              rw [h.folder loc hentry]
              by_cases hdot : part = "."
              · simp only [hdot] at hl ⊢
                exact ih hl
              · by_cases hup : part = ".."
                · simp only [hup] at hl ⊢
                  exact ih hl
                · simp only [beq_eq_false_iff_ne.2 hdot, beq_eq_false_iff_ne.2 hup] at hl ⊢
                  exact ih hl

/-- A path leads where it led. -/
theorem locate (h : t.Within t') {path : PathParts} (hl : t.locate path = .ok loc) :
    t'.locate path = .ok loc := by
  rw [FileTree.locate] at hl ⊢
  rw [h.working]
  by_cases habsolute : path.isAbsolute = true
  · rw [if_pos habsolute] at hl ⊢
    exact h.follow hl
  · rw [if_neg habsolute] at hl ⊢
    by_cases hparts : path.parts.isEmpty = true
    · rw [if_pos hparts] at hl
      cases hl
    · rw [if_neg hparts] at hl ⊢
      exact h.follow hl

end Within

end FileTree

/-- A text that can be the last part of a path, as the name of a file. -/
structure FileName.IsPart (name : String) : Prop where
  ne_nil : name.toList ≠ []
  no_slash : '/' ∉ name.toList
  ne_dot : name ≠ "."
  ne_dots : name ≠ ".."

namespace FileTree

variable {t t' : FileTree} {loc : Location} {base name : String}

/-- A file in a folder is found behind the place of the folder. -/
theorem locate_below (hbase : base.toList ≠ []) (hname : FileName.IsPart name)
    (hloc : t.locate (.of base) = .ok loc) (hfolder : t.entry? loc = some .folder) :
    t.locate (.of (base ++ "/" ++ name)) = .ok (loc ++ [name]) := by
  have hlast : t.follow loc [name] = .ok (loc ++ [name]) := by
    rw [follow, hfolder]
    simp [hname.ne_dot, hname.ne_dots, follow]
  have hbelow : ∀ start, t.follow start (PathParts.of base).parts = .ok loc →
      t.follow start ((PathParts.of base).parts ++ [name]) = .ok (loc ++ [name]) := by
    intro start hstart
    rw [follow_append, hstart]
    exact hlast
  rw [PathParts.of_append hbase hname.ne_nil hname.no_slash, locate]
  rw [locate] at hloc
  show (if isAbsolutePath base then _ else _) = _
  cases habsolute : isAbsolutePath base with
  | true =>
      rw [show (PathParts.of base).isAbsolute = true from habsolute] at hloc
      exact hbelow [] hloc
  | false =>
      rw [show (PathParts.of base).isAbsolute = false from habsolute] at hloc
      cases hparts : (PathParts.of base).parts.isEmpty with
      | true =>
          rw [hparts] at hloc
          cases hloc
      | false =>
          rw [hparts] at hloc
          simpa using hbelow t.working hloc

/-! ## What is in a folder -/

/-- The names right below a location. -/
def contents (t : FileTree) (loc : Location) : List String :=
  (t.folders ++ t.files.map Prod.fst).filterMap (nameBelow? loc)

/-- A folder can be listed, and nothing else. -/
theorem list_eq_ok_iff {path : String} {names : List String} :
    t.list path = .ok names ↔ ∃ loc, t.locate (.of path) = .ok loc
      ∧ t.entry? loc = some .folder ∧ t.contents loc = names := by
  rw [list]
  cases hloc : t.locate (.of path) with
  | error e => simp
  | ok loc =>
      cases hentry : t.entry? loc with
      | none => simp [hentry]
      | some entry =>
          cases entry with
          | file text => simp [hentry]
          | folder => simp [hentry, contents]

theorem nameBelow?_append (loc : Location) (name : String) :
    nameBelow? loc (loc ++ [name]) = some name := by
  simp [nameBelow?]

/-- Only what stands right below a folder is. -/
theorem length_of_nameBelow? {below : Location} (h : nameBelow? loc below = some name) :
    below.length = loc.length + 1 := by
  rw [nameBelow?] at h
  cases hlast : below.getLast? with
  | none =>
      rw [hlast] at h
      cases h
  | some last =>
      rw [hlast] at h
      by_cases hloc : below.dropLast = loc
      · have hne : below ≠ [] := by
          rintro rfl
          cases hlast
        rw [← hloc, List.length_dropLast]
        have := List.length_pos_iff.2 hne
        omega
      · simp [hloc] at h

/-- Nothing is found behind the place of an empty folder. -/
theorem entry?_below (h : t.contents loc = []) (name : String) :
    t.entry? (loc ++ [name]) = none := by
  have hnone : ∀ l ∈ t.folders ++ t.files.map Prod.fst, nameBelow? loc l = none := by
    intro l hl
    exact List.filterMap_eq_nil_iff.1 h l hl
  -- what stands behind the place of the folder would be listed in it
  have hnew : loc ++ [name] ∉ t.folders ++ t.files.map Prod.fst := by
    intro hmem
    have := hnone _ hmem
    rw [nameBelow?_append] at this
    cases this
  rw [List.mem_append, not_or] at hnew
  rw [ entry?, if_neg (by simp [hnew.1]), Option.map_eq_none_iff, List.lookup_eq_none_iff]
  intro file hfile
  rw [bne_iff_ne]
  intro hsame
  exact hnew.2 (List.mem_map.2 ⟨file, hfile, hsame.symm⟩)

/-! ## Writing into a folder -/

/-- The text that is set is the one that is found. -/
theorem lookup_setFile_self (loc : Location) (text : String) (files : List (Location × String)) :
    (setFile loc text files).lookup loc = some text := by
  induction files with
  | nil => simp [setFile]
  | cons file rest ih =>
      rw [setFile]
      by_cases hfile : file.1 = loc
      · simp [hfile]
      · rw [if_neg (by simpa using hfile), List.lookup_cons,
          beq_eq_false_iff_ne.2 (Ne.symm hfile), ih]

/-- No other text changes. -/
theorem lookup_setFile_of_ne {l : Location} (h : l ≠ loc) (text : String)
    (files : List (Location × String)) : (setFile loc text files).lookup l = files.lookup l := by
  induction files with
  | nil => simp [setFile, List.lookup_cons, beq_eq_false_iff_ne.2 h]
  | cons file rest ih =>
      rw [setFile]
      by_cases hfile : file.1 = loc
      · obtain ⟨place, old⟩ := file
        obtain rfl : place = loc := hfile
        simp [List.lookup_cons, beq_eq_false_iff_ne.2 h]
      · rw [if_neg (by simpa using hfile), List.lookup_cons, List.lookup_cons, ih]

/-- A new file comes last. -/
theorem setFile_of_new {files : List (Location × String)} {text : String}
    (h : files.lookup loc = none) : setFile loc text files = files ++ [(loc, text)] := by
  induction files with
  | nil => rfl
  | cons file rest ih =>
      rw [List.lookup_cons] at h
      by_cases hfile : loc = file.1
      · simp [hfile] at h
      · rw [beq_eq_false_iff_ne.2 hfile] at h
        rw [setFile, if_neg (by simpa using Ne.symm hfile), ih h]
        rfl

/-- A tree with a text at a location. -/
def withFile (t : FileTree) (loc : Location) (text : String) : FileTree :=
  { t with files := setFile loc text t.files }

theorem within_withFile (t : FileTree) (loc : Location) (text : String) :
    t.Within (t.withFile loc text) :=
  .of_folders rfl fun _ h => h

/-- Where no folder is, the file is found. -/
theorem entry?_withFile_self (h : t.entry? loc ≠ some .folder) (text : String) :
    FileTree.entry? (t.withFile loc text) loc = some (.file text) := by
  rw [ entry?] at h ⊢
  by_cases hfolder : (loc.isEmpty || t.folders.contains loc) = true
  · rw [if_pos hfolder] at h
    exact absurd rfl h
  · rw [withFile, if_neg hfolder, lookup_setFile_self]
    rfl

theorem entry?_withFile_of_ne {l : Location} (h : l ≠ loc) (text : String) :
    FileTree.entry? (t.withFile loc text) l = t.entry? l := by
  rw [ entry?, entry?, withFile, lookup_setFile_of_ne h]

theorem entry?_withFile_eq_folder_iff {l : Location} {text : String} :
    FileTree.entry? (t.withFile l text) loc = some .folder ↔ t.entry? loc = some .folder := by
  rw [entry?_eq_folder_iff, entry?_eq_folder_iff]
  rfl

/-- A path leads to a folder. -/
structure FolderAt (t : FileTree) (path : String) (loc : Location) : Prop where
  locate : t.locate (.of path) = .ok loc
  folder : t.entry? loc = some .folder

namespace FolderAt

theorem mono (h : t.FolderAt base loc) (hwithin : t.Within t') : t'.FolderAt base loc :=
  ⟨hwithin.locate h.locate, hwithin.folder loc h.folder⟩

section Below

variable (h : t.FolderAt base loc) (hbase : base.toList ≠ []) (hname : FileName.IsPart name)
include h hbase hname

/-- A text is written into a folder unless a folder of its name is there. -/
theorem writeText_eq_ok_iff {text : String} :
    t.writeText (base ++ "/" ++ name) text = .ok t'
      ↔ t.entry? (loc ++ [name]) ≠ some .folder ∧ t' = t.withFile (loc ++ [name]) text := by
  rw [writeText, locate_below hbase hname h.locate h.folder]
  simp only [PathParts.of_append hbase hname.ne_nil hname.no_slash, Bool.or_false, beq_iff_eq]
  by_cases hfolder : t.entry? (loc ++ [name]) = some .folder
  · simp [hfolder]
  · rw [if_neg hfolder, Except.ok.injEq, eq_comm]
    exact (and_iff_right hfolder).symm

/-- **A text is read exactly where its file is.** -/
theorem readText_eq_ok_iff {text : String} :
    t.readText (base ++ "/" ++ name) = .ok text ↔ t.entry? (loc ++ [name]) = some (.file text) := by
  rw [readText, locate_below hbase hname h.locate h.folder]
  simp only [PathParts.of_append hbase hname.ne_nil hname.no_slash]
  cases t.entry? (loc ++ [name]) with
  | none => simp
  | some entry =>
      cases entry with
      | folder => simp
      | file text => simp

theorem readText_of_none (hnone : t.entry? (loc ++ [name]) = none) :
    t.readText (base ++ "/" ++ name) = .error .notFound := by
  rw [readText, locate_below hbase hname h.locate h.folder]
  simp [hnone]

theorem readText_of_folder (hfolder : t.entry? (loc ++ [name]) = some .folder) :
    t.readText (base ++ "/" ++ name) = .error .isDirectory := by
  rw [readText, locate_below hbase hname h.locate h.folder]
  simp [hfolder]

end Below

end FolderAt

section EmptyFolder

variable (hbase : base.toList ≠ []) (hname : FileName.IsPart name) (hlist : t.list base = .ok [])
include hbase hname hlist

/-- A file that was written in an empty folder is a file below it. -/
theorem written_eq {text : String} (h : t.writeText (base ++ "/" ++ name) text = .ok t') :
    ∃ loc, t.FolderAt base loc ∧ t.contents loc = [] ∧ t' = t.withFile (loc ++ [name]) text := by
  obtain ⟨loc, hloc, hfolder, hempty⟩ := list_eq_ok_iff.1 hlist
  have hat : t.FolderAt base loc := ⟨hloc, hfolder⟩
  exact ⟨loc, hat, hempty, ((hat.writeText_eq_ok_iff hbase hname).1 h).2⟩

/-- **The file is the only thing in the folder.** -/
theorem list_written {text : String}
    (h : t.writeText (base ++ "/" ++ name) text = .ok t') : t'.list base = .ok [name] := by
  obtain ⟨loc, hat, hempty, rfl⟩ := written_eq hbase hname hlist h
  have hlookup : t.files.lookup (loc ++ [name]) = none := by
    have hnone := entry?_below hempty name
    rw [ entry?] at hnone
    split at hnone
    · cases hnone
    · exact Option.map_eq_none_iff.1 hnone
  have hwritten := hat.mono (t.within_withFile (loc ++ [name]) text)
  refine list_eq_ok_iff.2 ⟨loc, hwritten.locate, hwritten.folder, ?_⟩
  rw [contents] at hempty
  rw [contents, withFile, setFile_of_new hlookup, List.map_append, ← List.append_assoc,
    List.filterMap_append, hempty]
  simp [nameBelow?_append]

/-- **The file has its text.** -/
theorem readText_written {text : String}
    (h : t.writeText (base ++ "/" ++ name) text = .ok t') :
    t'.readText (base ++ "/" ++ name) = .ok text := by
  obtain ⟨loc, hat, hempty, rfl⟩ := written_eq hbase hname hlist h
  have hwritten := hat.mono (t.within_withFile (loc ++ [name]) text)
  have hnew : t.entry? (loc ++ [name]) ≠ some .folder := by simp [entry?_below hempty name]
  exact (hwritten.readText_eq_ok_iff hbase hname).2 (entry?_withFile_self hnew text)

/-- **No other file is found in the folder.** -/
theorem readText_other {text other : String} (hother : FileName.IsPart other)
    (hne : other ≠ name) (h : t.writeText (base ++ "/" ++ name) text = .ok t') :
    t'.readText (base ++ "/" ++ other) = .error .notFound := by
  obtain ⟨loc, hat, hempty, rfl⟩ := written_eq hbase hname hlist h
  have hwritten := hat.mono (t.within_withFile (loc ++ [name]) text)
  have hplace : loc ++ [other] ≠ loc ++ [name] := by simpa using hne
  exact hwritten.readText_of_none hbase hother
    ((entry?_withFile_of_ne hplace text).trans (entry?_below hempty other))

end EmptyFolder

/-! ## Making folders -/

/-- To ensure a folder changes nothing, or adds it. -/
theorem ensureFolder_cases {path : PathParts} (h : t.ensureFolder path = .ok t') :
    t' = t ∧ t.isFolder path = true
      ∨ ∃ loc, t.locate path = .ok loc ∧ t' = { t with folders := t.folders ++ [loc] } := by
  rw [ensureFolder] at h
  cases hmade : t.makeFolder path with
  | error e =>
      rw [hmade] at h
      by_cases hfolder : t.isFolder path = true
      · simp only [hfolder, if_true] at h
        exact Or.inl ⟨(Except.ok.inj h).symm, hfolder⟩
      · simp [hfolder] at h
  | ok made =>
      rw [hmade] at h
      obtain rfl : made = t' := Except.ok.inj h
      rw [makeFolder] at hmade
      cases hloc : t.locate path with
      | error e =>
          rw [hloc] at hmade
          cases hmade
      | ok loc =>
          cases hentry : t.entry? loc with
          | some entry => simp [hloc, hentry] at hmade
          | none =>
              simp only [hloc, hentry] at hmade
              exact Or.inr ⟨loc, rfl, (Except.ok.inj hmade).symm⟩

/-- What was ensured is there. -/
theorem isFolder_of_ensureFolder {path : PathParts} (h : t.ensureFolder path = .ok t') :
    t'.isFolder path = true := by
  rcases ensureFolder_cases h with ⟨rfl, hfolder⟩ | ⟨loc, hloc, rfl⟩
  · exact hfolder
  · have hwithin : t.Within { t with folders := t.folders ++ [loc] } :=
      .of_folders rfl fun l hl => List.mem_append_left _ hl
    rw [isFolder, hwithin.locate hloc]
    simp [ entry?]

/-- To make folders up to a path makes those above it if they are missing, and then
    the last one. -/
theorem makeFoldersUp_cases {isAbsolute : Bool} {part : String} {above : List String}
    (h : t.makeFoldersUp isAbsolute (part :: above) = .ok t') :
    ∃ made, (made = t ∨ t.makeFoldersUp isAbsolute above = .ok made)
      ∧ made.ensureFolder ⟨(part :: above).reverse, isAbsolute, false⟩ = .ok t' := by
  rw [makeFoldersUp] at h
  split at h
  · split at h
    · cases h
    · rename_i made hmade
      exact ⟨made, Or.inr hmade, h⟩
  · exact ⟨t, Or.inl rfl, h⟩

/-- Folders are made no deeper than the path goes, where it does not go up. -/
theorem depth_of_makeFoldersUp {isAbsolute : Bool} {parts : List String} (hup : ".." ∉ parts)
    (hworking : t.working = []) (h : t.makeFoldersUp isAbsolute parts = .ok t') :
    t'.working = [] ∧ t'.files = t.files
      ∧ ∀ l ∈ t'.folders, l ∈ t.folders ∨ l.length ≤ (parts.filter (· != ".")).length := by
  induction parts generalizing t' with
  | nil =>
      obtain rfl : t = t' := Except.ok.inj h
      exact ⟨hworking, rfl, fun l hl => Or.inl hl⟩
  | cons part above ih =>
      -- the folders above come first, and they go less deep
      obtain ⟨made, hmade, hensured⟩ := makeFoldersUp_cases h
      have hsub : (above.filter (· != ".")).length
          ≤ ((part :: above).filter (· != ".")).length :=
        ((List.sublist_cons_self part above).filter _).length_le
      have hbefore : made.working = [] ∧ made.files = t.files ∧ ∀ l ∈ made.folders,
          l ∈ t.folders ∨ l.length ≤ ((part :: above).filter (· != ".")).length := by
        rcases hmade with rfl | hmade
        · exact ⟨hworking, rfl, fun l hl => Or.inl hl⟩
        · obtain ⟨hwork, hfiles, hdepth⟩ := ih (fun hmem => hup (List.mem_cons_of_mem _ hmem)) hmade
          exact ⟨hwork, hfiles, fun l hl => (hdepth l hl).imp_right (Nat.le_trans · hsub)⟩
      obtain ⟨hwork, hfiles, hdepth⟩ := hbefore
      rcases ensureFolder_cases hensured with ⟨rfl, -⟩ | ⟨loc, hloc, rfl⟩
      · exact ⟨hwork, hfiles, hdepth⟩
      · refine ⟨hwork, hfiles, fun l hl => ?_⟩
        rcases List.mem_append.1 hl with hold | hnew
        · exact hdepth l hold
        · -- the new folder is where the path leads from the root
          obtain rfl : l = loc := List.mem_singleton.1 hnew
          have hlength := congrArg List.length (locate_eq hwork (mt List.mem_reverse.1 hup) hloc)
          rw [List.filter_reverse, List.length_reverse] at hlength
          exact Or.inr (Nat.le_of_eq hlength)

/-- A folder that is made is there. -/
theorem exists_folderAt_of_makeFolders {path : String} (hpath : (PathParts.of path).parts ≠ [])
    (h : t.makeFolders path = .ok t') : ∃ loc, t'.FolderAt path loc := by
  have hreverse : (PathParts.of path).parts.reverse ≠ [] := by simpa using hpath
  obtain ⟨part, above, hparts⟩ := List.exists_cons_of_ne_nil hreverse
  rw [makeFolders, hparts] at h
  obtain ⟨made, -, hensured⟩ := makeFoldersUp_cases h
  have hfolder := isFolder_of_ensureFolder hensured
  rw [← hparts, List.reverse_reverse] at hfolder
  have hsame : t'.locate ⟨(PathParts.of path).parts, (PathParts.of path).isAbsolute, false⟩
      = t'.locate (.of path) := rfl
  rw [isFolder, hsame] at hfolder
  cases hloc : t'.locate (.of path) with
  | error e => simp [hloc] at hfolder
  | ok loc =>
      rw [hloc] at hfolder
      exact ⟨loc, hloc, by simpa using hfolder⟩

/-- A folder that is there is not made again. -/
theorem FolderAt.makeFolders_eq {path : String} (h : t.FolderAt path loc) :
    t.makeFolders path = .ok t := by
  rw [makeFolders]
  cases hparts : (PathParts.of path).parts.reverse with
  | nil => rfl
  | cons part above =>
      have hsame : t.locate ⟨(part :: above).reverse, (PathParts.of path).isAbsolute, false⟩
          = .ok loc := by
        rw [← hparts, List.reverse_reverse, ← h.locate]
        rfl
      -- the attempt to make it fails, and then the folder is looked for
      have hexists : t.makeFolder ⟨(part :: above).reverse, (PathParts.of path).isAbsolute, false⟩
          = .error .alreadyExists := by
        rw [makeFolder, hsame]
        simp [h.folder]
      have hfolder : t.isFolder ⟨(part :: above).reverse, (PathParts.of path).isAbsolute, false⟩
          = true := by
        rw [isFolder, hsame]
        simp [h.folder]
      rw [makeFoldersUp]
      simp only [hexists, ensureFolder, hfolder, if_true]

/-- **In a tree with nothing in it**, a folder that is made is empty, where its
    path does not go up. -/
theorem list_made_in_empty {path : String} (hpath : (PathParts.of path).parts ≠ [])
    (hup : ".." ∉ (PathParts.of path).parts)
    (h : ({} : FileTree).makeFolders path = .ok t) : t.list path = .ok [] := by
  obtain ⟨loc, hat⟩ := exists_folderAt_of_makeFolders hpath h
  rw [makeFolders] at h
  obtain ⟨hworking, hfiles, hdepth⟩ := depth_of_makeFoldersUp (mt List.mem_reverse.1 hup) rfl h
  refine list_eq_ok_iff.2 ⟨loc, hat.locate, hat.folder, ?_⟩
  have hlength := congrArg List.length (locate_eq hworking hup hat.locate)
  rw [contents, hfiles, List.filterMap_eq_nil_iff]
  intro l hl
  rw [List.map_nil, List.append_nil] at hl
  rcases hdepth l hl with hold | hshort
  · cases hold
  · rw [List.filter_reverse, List.length_reverse, ← hlength] at hshort
    rw [Option.eq_none_iff_forall_ne_some]
    intro name hname
    have := length_of_nameBelow? hname
    omega

end FileTree

end Blueprints
