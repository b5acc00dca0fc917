import Mathlib.Data.List.TakeWhile
import Blueprints.Proofs.Storage.Trees
import Blueprints.Storage.Project

/-! # Writing files of a project

    A file of a project goes into one of two folders, by its extension.  On a
    file tree it is written just where its name is valid, the folder is there
    or can be made, and the text can be written below it
    (`run_persist_eq_ok_iff`). -/

namespace Blueprints

/-! ## Names -/

namespace Text

theorem trimStart_eq_nil_iff (cs : List Char) : trimStart cs = [] ↔ ∀ c ∈ cs, isBlank c = true := by
  rw [trimStart, List.dropWhile_eq_nil_iff]

theorem trimStart_sublist (cs : List Char) : (trimStart cs).Sublist cs :=
  List.dropWhile_sublist _

/-- A text is blank just where nothing is left of it. -/
theorem trimChars_eq_nil_iff (s : String) : trimChars s.toList = [] ↔ isBlankText s = true := by
  rw [trimChars, List.reverse_eq_nil_iff, trimStart_eq_nil_iff, isBlankText, List.all_eq_true]
  constructor
  · intro h
    rw [← trimStart_eq_nil_iff]
    -- what is left starts with a character that is not blank
    cases hleft : trimStart s.toList with
    | nil => rfl
    | cons c rest =>
        have hblank : isBlank c = true := h c (by simp [hleft])
        have hhead := List.head?_dropWhile_not isBlank s.toList
        rw [show s.toList.dropWhile isBlank = c :: rest from hleft] at hhead
        simp [hblank] at hhead
  · intro h c hc
    exact h c ((trimStart_sublist _).subset (List.mem_reverse.1 hc))

/-- A text that is not blank has a character. -/
theorem ne_nil_of_not_blank {s : String} (h : isBlankText s = false) : s.toList ≠ [] := by
  intro hnil
  rw [isBlankText, hnil] at h
  cases h

/-- A character that is not blank is not trimmed. -/
theorem mem_trimStart {cs : List Char} {c : Char} (hc : c ∈ cs) (hblank : isBlank c = false) :
    c ∈ trimStart cs := by
  have hparts : c ∈ cs.takeWhile isBlank ++ cs.dropWhile isBlank := by
    rwa [List.takeWhile_append_dropWhile]
  rcases List.mem_append.1 hparts with hfront | hback
  · rw [List.mem_takeWhile_imp hfront] at hblank
    cases hblank
  · exact hback

/-- A character that is not blank stands between the blank ends. -/
theorem mem_trimChars {cs : List Char} {c : Char} (hc : c ∈ cs) (hblank : isBlank c = false) :
    c ∈ trimChars cs :=
  List.mem_reverse.2 (mem_trimStart (List.mem_reverse.2 (mem_trimStart hc hblank)) hblank)

end Text

namespace FileName

/-- The last dot is that of the extension. -/
theorem split_append {name ending : String} (hname : name.toList ≠ [])
    (hending : '.' ∉ ending.toList) : split (name ++ "." ++ ending) = (name, some ending) := by
  have hreversed : (name ++ "." ++ ending).toList.reverse
      = ending.toList.reverse ++ '.' :: name.toList.reverse := by
    simp
  have hbehind : ∀ c ∈ ending.toList.reverse, (c != '.') = true := by
    intro c hc
    rw [bne_iff_ne]
    rintro rfl
    exact hending (List.mem_reverse.1 hc)
  obtain ⟨c, before, hbefore⟩ : ∃ c before, name.toList.reverse = c :: before :=
    List.exists_cons_of_ne_nil (by simpa using hname)
  have hback : String.ofList (c :: before).reverse = name := by
    rw [← hbefore, List.reverse_reverse, String.ofList_toList]
  have hdropped : (ending.toList.reverse ++ '.' :: c :: before).dropWhile (· != '.')
      = '.' :: c :: before := by
    rw [List.dropWhile_append_of_pos hbehind, List.dropWhile_cons_of_neg (by simp)]
  have htaken : (ending.toList.reverse ++ '.' :: c :: before).takeWhile (· != '.')
      = ending.toList.reverse := by
    rw [List.takeWhile_append_of_pos hbehind, List.takeWhile_cons_of_neg (by simp),
      List.append_nil]
  rw [split, hreversed, hbefore, hdropped, htaken]
  dsimp only
  rw [hback, List.reverse_reverse, String.ofList_toList]

/-- A valid name holds no forbidden character. -/
theorem notMem_of_isValid {name : String} (h : isValid name = true) {c : Char}
    (hc : c ∈ forbidden) : c ∉ name.toList := by
  intro hmem
  simp only [isValid, Bool.and_eq_true, Bool.not_eq_true', List.any_eq_false] at h
  exact h.2 c hmem (by simpa using hc)

/-- A valid name that does not end in a dot names a file. -/
theorem isPart_of_getLast? {name : String} (h : isValid name = true) {c : Char}
    (hlast : name.toList.getLast? = some c) (hc : c ≠ '.') : IsPart name := by
  refine ⟨?_, notMem_of_isValid h (by decide), ?_, ?_⟩
  · intro hnil
    rw [hnil] at hlast
    cases hlast
  · rintro rfl
    exact hc (Option.some.inj hlast).symm
  · rintro rfl
    exact hc (Option.some.inj hlast).symm

end FileName

/-! ## Folders -/

/-- A path that a name can be put behind. -/
structure IsFolderPath (path : String) : Prop where
  ne_nil : path.toList ≠ []
  noSlash : endsInSlash path = false

namespace IsFolderPath

/-- The path of a folder has parts. -/
theorem parts_ne_nil {path : String} (h : IsFolderPath path) : (PathParts.of path).parts ≠ [] := by
  have hlast := List.getLast?_eq_some_getLast h.ne_nil
  refine PathParts.parts_ne_nil (List.getLast_mem h.ne_nil) ?_
  intro hslash
  rw [hslash] at hlast
  exact absurd h.noSlash (by simp [endsInSlash, hlast])

/-- A name is put behind the path of a folder with one slash. -/
theorem joinPath_eq {path name : String} (h : IsFolderPath path) (hname : FileName.IsPart name) :
    joinPath path name = path ++ "/" ++ name := by
  have hrelative : isAbsolutePath name = false := by
    rw [isAbsolutePath, beq_eq_false_iff_ne]
    intro hhead
    exact hname.no_slash (List.mem_of_mem_head? hhead)
  have hempty : path.isEmpty = false := by
    rw [String.isEmpty_eq_false_iff]
    rintro rfl
    exact h.ne_nil rfl
  rw [joinPath, hrelative, hempty, h.noSlash]
  rfl

/-- A name behind any path makes one. -/
theorem joinPath (root : String) {name : String} (hname : FileName.IsPart name) :
    IsFolderPath (joinPath root name) := by
  -- however the two are put together, the name comes last
  obtain ⟨front, hfront⟩ : ∃ front, Blueprints.joinPath root name = front ++ name := by
    rw [Blueprints.joinPath]
    split
    · exact ⟨"", String.empty_append.symm⟩
    · split
      · exact ⟨root, rfl⟩
      · exact ⟨root ++ "/", rfl⟩
  rw [hfront]
  refine ⟨by simp [hname.ne_nil], ?_⟩
  rw [endsInSlash, String.toList_append, List.getLast?_append_of_ne_nil _ hname.ne_nil,
    beq_eq_false_iff_ne]
  intro hlast
  exact hname.no_slash (List.mem_of_getLast? hlast)

end IsFolderPath

namespace ProjectFolder

variable {p : ProjectFolder} {t t' : FileTree}

theorem isFolderPath_blueprintsPath (p : ProjectFolder) : IsFolderPath p.blueprintsPath :=
  .joinPath p.root ⟨by decide, by decide, by decide, by decide⟩

theorem isFolderPath_scriptsPath (p : ProjectFolder) : IsFolderPath p.scriptsPath :=
  .joinPath p.root ⟨by decide, by decide, by decide, by decide⟩

/-- The folder that a file goes into. -/
def folderOf (p : ProjectFolder) (name : String) : String :=
  if isBlueprintFile name then p.blueprintsPath else p.scriptsPath

/-! ## Running on a file tree -/

/-- What storage does with a file tree for a disk. -/
abbrev OnTree : Type → Type := ExceptT StorageError (StateM FileTree)

section Running

variable {α β : Type} {e : StorageError}

/-- What follows a success goes on from its tree. -/
theorem run_bind_of_ok {x : OnTree α}
    (f : α → OnTree β) {a : α} (h : x.run t = (.ok a, t')) :
    (x >>= f).run t = (f a).run t' := by
  show (ExceptT.bindCont f (x.run t).1) (x.run t).2 = _
  rw [h]
  rfl

/-- A failure ends the run. -/
theorem run_bind_of_error {x : OnTree α}
    (f : α → OnTree β) (h : x.run t = (.error e, t')) :
    (x >>= f).run t = (.error e, t') := by
  show (ExceptT.bindCont f (x.run t).1) (x.run t).2 = _
  rw [h]
  rfl

/-- A result comes of both parts. -/
theorem run_bind_eq_ok_iff {x : OnTree α} {f : α → OnTree β} {b : β} :
    (x >>= f).run t = (.ok b, t')
      ↔ ∃ a between, x.run t = (.ok a, between) ∧ (f a).run between = (.ok b, t') := by
  obtain ⟨result, between, hx⟩ : ∃ result between, x.run t = (result, between) := ⟨_, _, rfl⟩
  constructor
  · intro h
    cases result with
    | error e =>
        rw [run_bind_of_error f hx] at h
        cases h
    | ok a =>
        rw [run_bind_of_ok f hx] at h
        exact ⟨a, between, hx, h⟩
  · rintro ⟨a, between, hfirst, hrest⟩
    rw [run_bind_of_ok f hfirst, hrest]

theorem run_onDisk (path : String) (act : String → StateM FileTree (Except DiskError α)) :
    (onDisk path act).run t = ((act path t).1.mapError (.disk path), (act path t).2) := rfl

/-- A change of the tree is made, or fails. -/
theorem run_attempt_eq_ok_iff {path : String}
    (act : String → StateM FileTree (Except DiskError Unit))
    {change : FileTree → Except DiskError FileTree} (hact : act path = FileTree.attempt change) :
    (onDisk path act).run t = (.ok (), t') ↔ change t = .ok t' := by
  rw [run_onDisk, hact, FileTree.attempt]
  constructor
  · intro h
    cases hchange : change t with
    | error e =>
        rw [hchange] at h
        cases h
    | ok changed =>
        rw [hchange] at h
        cases h
        rfl
  · intro h
    rw [h]
    rfl

theorem run_makeFolders_eq_ok_iff {path : String} :
    (onDisk path Disk.makeFolders : OnTree Unit).run t = (.ok (), t')
      ↔ t.makeFolders path = .ok t' :=
  run_attempt_eq_ok_iff Disk.makeFolders rfl

theorem run_writeText_eq_ok_iff {path text : String} :
    (onDisk path (Disk.writeText · text) : OnTree Unit).run t = (.ok (), t')
      ↔ t.writeText path text = .ok t' :=
  run_attempt_eq_ok_iff (Disk.writeText · text) rfl

theorem run_readText (path : String) : (onDisk path Disk.readText : OnTree String).run t
    = ((t.readText path).mapError (.disk path), t) := rfl

theorem run_list (path : String) : (onDisk path Disk.list : OnTree (List String)).run t
    = ((t.list path).mapError (.disk path), t) := rfl

end Running

/-! ## Files -/

/-- A file with a valid name is written after its folder was made. -/
theorem persist_of_isValid (p : ProjectFolder) {name : String}
    (h : FileName.isValid name = true) (text : String) :
    (p.persist name text : OnTree String) = (do
      onDisk (p.folderOf name) Disk.makeFolders
      onDisk (joinPath (p.folderOf name) name) (Disk.writeText · text)
      return joinPath (p.folderOf name) name) := by
  rw [persist, if_pos h]
  rfl

/-- **When a file is written.** -/
theorem run_persist_eq_ok_iff {name text path : String} :
    (p.persist name text : OnTree String).run t = (.ok path, t')
      ↔ FileName.isValid name = true ∧ path = joinPath (p.folderOf name) name
        ∧ ∃ made, t.makeFolders (p.folderOf name) = .ok made
          ∧ made.writeText (joinPath (p.folderOf name) name) text = .ok t' := by
  by_cases hvalid : FileName.isValid name = true
  · rw [persist_of_isValid p hvalid]
    constructor
    · intro h
      obtain ⟨⟨⟩, made, hmade, hrest⟩ := run_bind_eq_ok_iff.1 h
      obtain ⟨⟨⟩, written, hwritten, hend⟩ := run_bind_eq_ok_iff.1 hrest
      cases hend
      exact ⟨hvalid, rfl, made, run_makeFolders_eq_ok_iff.1 hmade,
        run_writeText_eq_ok_iff.1 hwritten⟩
    · rintro ⟨-, rfl, made, hmade, hwritten⟩
      refine run_bind_eq_ok_iff.2 ⟨(), made, run_makeFolders_eq_ok_iff.2 hmade, ?_⟩
      exact run_bind_eq_ok_iff.2 ⟨(), t', run_writeText_eq_ok_iff.2 hwritten, rfl⟩
  · rw [persist, if_neg hvalid]
    constructor
    · intro h
      cases h
    · intro h
      exact absurd h.1 hvalid

end ProjectFolder

end Blueprints
