import Mathlib.Data.List.Nodup
import Blueprints.Proofs.Cli.Commands
import Blueprints.Proofs.Text.Identifiers

/-! # The files of a build

    A build gives every blueprint a file that is named for the blueprint's
    name as an identifier.  Names that become the same identifier share a
    file, and the unit that is written last is the one that stays.  So a build
    keeps the text of every unit just where no two names meet
    (`units_kept_iff_no_names_meet`). -/

namespace Blueprints

variable {b b' : Blueprint} {catalog : Catalog} {options : Options} {time : String}

/-! ## File names -/

/-- The unit of a blueprint in a build. -/
def CompiledUnit.of (catalog : Catalog) (options : Options) (time : String) (b : Blueprint) :
    CompiledUnit where
  blueprintId := b.id
  fileName := unitName b options ++ ".ts"
  program := compile b catalog options time

theorem units_compileProject (bs : List Blueprint) :
    (compileProject bs catalog options time).units
      = bs.map (CompiledUnit.of catalog options time) := rfl

theorem unitName_eq (hname : Text.isBlankText b.name = false) :
    unitName b options = options.functionPrefix ++ Text.identifier b.name := by
  rw [unitName, if_neg (by simp [hname])]

/-- **When two units share a file.** -/
theorem fileName_eq_iff (hname : Text.isBlankText b.name = false)
    (hname' : Text.isBlankText b'.name = false) :
    (CompiledUnit.of catalog options time b).fileName
        = (CompiledUnit.of catalog options time b').fileName
      ↔ Text.Meet b.name.toList b'.name.toList := by
  show unitName b options ++ ".ts" = unitName b' options ++ ".ts" ↔ _
  rw [unitName_eq hname, unitName_eq hname', String.append_left_inj, String.append_right_inj,
    Text.identifier, Text.identifier, String.ofList_inj,
    Text.identifierChars_eq_iff (Text.ne_nil_of_not_blank hname) (Text.ne_nil_of_not_blank hname')]

/-! ## Texts -/

/-- A unit starts with its header. -/
theorem exists_source_header (b : Blueprint) (catalog : Catalog) (options : Options)
    (time : String) : ∃ more, (compile b catalog options time).source
      = textOfLines (headerLines b options time ++ more) := by
  have hfunction : ∀ u : FunctionUnit, ∃ more,
      u.lines b options time = headerLines b options time ++ more := by
    intro u
    simp only [FunctionUnit.lines, List.append_assoc]
    exact ⟨_, rfl⟩
  have hcomponent : ∀ u : ComponentUnit, ∃ more,
      u.lines b options time = headerLines b options time ++ more := by
    intro u
    simp only [ComponentUnit.lines, List.append_assoc]
    exact ⟨_, rfl⟩
  rw [compile]
  cases b.kind with
  | function =>
      obtain ⟨more, hmore⟩ := hfunction (.build (.of b catalog options))
      exact ⟨more, congrArg textOfLines hmore⟩
  | component =>
      obtain ⟨more, hmore⟩ := hcomponent (.build (.of b catalog options))
      exact ⟨more, congrArg textOfLines hmore⟩

/-- The text of a unit tells the name of its blueprint in the second line. -/
theorem exists_source_eq (b : Blueprint) (catalog : Catalog) (options : Options) (time : String) :
    ∃ rest, (compile b catalog options time).source
      = "/**\n * Generated from blueprint: " ++ (b.name ++ ("\n" ++ rest)) := by
  obtain ⟨more, hsource⟩ := exists_source_header b catalog options time
  obtain ⟨line, lines, hlines⟩ : ∃ line lines, headerLines b options time ++ more
      = "/**" :: (" * Generated from blueprint: " ++ b.name) :: line :: lines := by
    rw [headerLines]
    cases options.headerTimestamp with
    | true => exact ⟨_, _, rfl⟩
    | false => exact ⟨_, _, rfl⟩
  refine ⟨"\n".intercalate (line :: lines) ++ "\n", ?_⟩
  rw [hsource, hlines, textOfLines, String.intercalate_cons_cons, String.intercalate_cons_cons]
  simp only [String.append_assoc]
  rfl

/-- **Units of the same file and the same text have the same name.** -/
theorem name_eq_of_fileName_eq (hname : Text.isBlankText b.name = false)
    (hname' : Text.isBlankText b'.name = false)
    (hfile : (CompiledUnit.of catalog options time b).fileName
      = (CompiledUnit.of catalog options time b').fileName)
    (hsource : (CompiledUnit.of catalog options time b).program.source
      = (CompiledUnit.of catalog options time b').program.source) : b.name = b'.name := by
  obtain ⟨rest, hrest⟩ := exists_source_eq b catalog options time
  obtain ⟨rest', hrest'⟩ := exists_source_eq b' catalog options time
  have hsame : b.name.toList ++ '\n' :: rest.toList = b'.name.toList ++ '\n' :: rest'.toList := by
    have h := hrest.symm.trans (hsource.trans hrest')
    rw [String.append_right_inj, ← String.toList_inj, String.toList_append, String.toList_append,
      String.toList_append, String.toList_append] at h
    exact h
  exact String.toList_inj.1 (((fileName_eq_iff hname hname').1 hfile).eq_of_append hsame)

/-! ## Scripts -/

/-- A file name with the extension of a script. -/
def IsScript (name : String) : Prop :=
  ∃ front : String, front.toList ≠ [] ∧ name = front ++ "." ++ "ts"

/-- Every unit has a file with the extension of a script. -/
theorem isScript_fileName (b : Blueprint) :
    IsScript (CompiledUnit.of catalog options time b).fileName := by
  refine ⟨unitName b options, ?_, ?_⟩
  · intro hnil
    rw [unitName, String.toList_append] at hnil
    have hword := Text.isWord_identifier (if Text.isBlankText b.name then "Blueprint" else b.name)
    rw [(List.append_eq_nil_iff.1 hnil).2] at hword
    cases hword
  · rw [String.append_assoc]
    rfl

namespace IsScript

variable {name : String} (h : IsScript name)
include h

/-- Scripts go to the folder for scripts. -/
theorem folderOf (p : ProjectFolder) : p.folderOf name = p.scriptsPath := by
  obtain ⟨front, hfront, rfl⟩ := h
  have hextension : FileName.extension? (front ++ "." ++ "ts") = some "ts" :=
    congrArg Prod.snd (FileName.split_append hfront (by decide))
  rw [ProjectFolder.folderOf, isBlueprintFile, hextension]
  rfl

/-- The name of a script is one part of a path. -/
theorem isPart (hvalid : FileName.isValid name = true) : FileName.IsPart name := by
  obtain ⟨front, -, rfl⟩ := h
  have hlast : (front ++ "." ++ "ts").toList.getLast? = some 's' := by simp
  exact FileName.isPart_of_getLast? hvalid hlast (by decide)

/-- The name of a script is valid if it holds no forbidden character. -/
theorem isValid (hname : ∀ c ∈ name.toList, c ∉ FileName.forbidden) :
    FileName.isValid name = true := by
  obtain ⟨front, -, rfl⟩ := h
  -- the last character of the extension is neither blank nor a dot
  have hs : 's' ∈ Text.trimChars (front ++ "." ++ "ts").toList :=
    Text.mem_trimChars (by simp) (by decide)
  have hleft : (Text.trimChars (front ++ "." ++ "ts").toList).isEmpty = false :=
    List.isEmpty_eq_false_iff.2 (List.ne_nil_of_mem hs)
  have hdots : (Text.trimChars (front ++ "." ++ "ts").toList).all (· == '.') = false :=
    List.all_eq_false.2 ⟨'s', hs, by decide⟩
  have hforbidden : (front ++ "." ++ "ts").toList.any FileName.forbidden.contains = false := by
    rw [List.any_eq_false]
    intro c hc hcontains
    exact hname c hc (List.contains_iff_mem.1 hcontains)
  rw [FileName.isValid, hleft, hdots, hforbidden]
  rfl

end IsScript

/-- A unit's file name is valid if nothing in front of the names forbids it. -/
theorem isValid_fileName (b : Blueprint)
    (hahead : ∀ c ∈ options.functionPrefix.toList, c ∉ FileName.forbidden) :
    FileName.isValid (CompiledUnit.of catalog options time b).fileName = true := by
  have hword : (FileName.forbidden.all fun c => !Text.isIdentifierChar c) = true := by decide
  have hending : (".ts".toList.all fun c => !FileName.forbidden.contains c) = true := by decide
  refine (isScript_fileName b).isValid ?_
  intro c hc
  have hparts : c ∈ options.functionPrefix.toList ∨ Text.isIdentifierChar c = true
      ∨ c ∈ ".ts".toList := by
    rw [CompiledUnit.of, unitName, String.toList_append, String.toList_append, List.mem_append,
      List.mem_append, or_assoc] at hc
    refine hc.imp_right (Or.imp_left fun hmem => ?_)
    exact List.all_eq_true.1
      (Text.all_isIdentifierChar_of_isWord (Text.isWord_identifier _)) c hmem
  rcases hparts with hmem | hchar | hmem
  · exact hahead c hmem
  · intro hforbidden
    have hother := List.all_eq_true.1 hword c hforbidden
    rw [hchar] at hother
    cases hother
  · simpa using List.all_eq_true.1 hending c hmem

/-! ## Writing the units -/

namespace ProjectFolder

variable {p : ProjectFolder} {t t' made : FileTree} {loc : Location} {units : List CompiledUnit}

/-- A script is written into its folder unless a folder of its name is there. -/
theorem run_persist_script {name text path : String} (hscript : IsScript name)
    (hat : t.FolderAt p.scriptsPath loc) :
    (p.persist name text : OnTree String).run t = (.ok path, t')
      ↔ FileName.isValid name = true ∧ path = joinPath p.scriptsPath name
        ∧ t.entry? (loc ++ [name]) ≠ some .folder ∧ t' = t.withFile (loc ++ [name]) text := by
  have hbase := p.isFolderPath_scriptsPath
  rw [run_persist_eq_ok_iff, hscript.folderOf]
  refine and_congr_right fun hvalid => and_congr_right fun _ => ?_
  have hpart := hscript.isPart hvalid
  rw [hbase.joinPath_eq hpart, ← hat.writeText_eq_ok_iff hbase.ne_nil hpart, hat.makeFolders_eq]
  simp

/-- The first unit of some makes the folder for all. -/
theorem run_persistUnits_of_makeFolders (hscript : ∀ u ∈ units, IsScript u.fileName)
    (hne : units ≠ []) (h : t.makeFolders p.scriptsPath = .ok made) :
    (p.persistUnits units).run t = (.ok (), t')
      ↔ (p.persistUnits units).run made = (.ok (), t') := by
  obtain ⟨u, rest, rfl⟩ := List.exists_cons_of_ne_nil hne
  obtain ⟨loc, hat⟩ :=
    FileTree.exists_folderAt_of_makeFolders p.isFolderPath_scriptsPath.parts_ne_nil h
  have hfirst : ∀ path between,
      (p.persist u.fileName u.program.source : OnTree String).run t = (.ok path, between)
        ↔ (p.persist u.fileName u.program.source : OnTree String).run made
          = (.ok path, between) := by
    intro path between
    rw [run_persist_eq_ok_iff, run_persist_eq_ok_iff,
      (hscript u List.mem_cons_self).folderOf, h, hat.makeFolders_eq]
  rw [persistUnits, run_bind_eq_ok_iff, run_bind_eq_ok_iff]
  simp only [hfirst]

/-- A tree with the texts of units below a location. -/
def withUnits (loc : Location) : List CompiledUnit → FileTree → FileTree
  | [], t => t
  | u :: rest, t => withUnits loc rest (t.withFile (loc ++ [u.fileName]) u.program.source)

/-- **What writing the units comes to**, once there is a folder for them. -/
theorem run_persistUnits_eq_ok_iff (hscript : ∀ u ∈ units, IsScript u.fileName)
    (hat : t.FolderAt p.scriptsPath loc) :
    (p.persistUnits units).run t = (.ok (), t')
      ↔ (∀ u ∈ units, FileName.isValid u.fileName = true
          ∧ t.entry? (loc ++ [u.fileName]) ≠ some .folder)
        ∧ t' = withUnits loc units t := by
  induction units generalizing t with
  | nil =>
      constructor
      · intro h
        cases h
        simp [withUnits]
      · rintro ⟨-, rfl⟩
        rfl
  | cons u rest ih =>
      -- the folder is still there when the first unit is written, and no new one is
      have hwritten := hat.mono (t.within_withFile (loc ++ [u.fileName]) u.program.source)
      have hrest := ih (fun v hv => hscript v (List.mem_cons_of_mem _ hv)) hwritten
      rw [persistUnits, run_bind_eq_ok_iff]
      simp only [run_persist_script (hscript u List.mem_cons_self) hat]
      constructor
      · rintro ⟨path, between, ⟨hvalid, -, hfree, rfl⟩, hmore⟩
        obtain ⟨hall, hend⟩ := hrest.1 hmore
        refine ⟨?_, hend⟩
        intro v hv
        rcases List.mem_cons.1 hv with rfl | hv
        · exact ⟨hvalid, hfree⟩
        · exact ⟨(hall v hv).1, mt FileTree.entry?_withFile_eq_folder_iff.2 (hall v hv).2⟩
      · rintro ⟨hall, rfl⟩
        obtain ⟨hvalid, hfree⟩ := hall u List.mem_cons_self
        refine ⟨_, _, ⟨hvalid, rfl, hfree, rfl⟩, hrest.2 ⟨?_, rfl⟩⟩
        intro v hv
        obtain ⟨hvalid, hfree⟩ := hall v (List.mem_cons_of_mem _ hv)
        exact ⟨hvalid, mt FileTree.entry?_withFile_eq_folder_iff.1 hfree⟩

/-- To write units leaves folders where they are. -/
theorem folderAt_withUnits {path : String} (hat : t.FolderAt path loc) (at' : Location)
    (units : List CompiledUnit) : (withUnits at' units t).FolderAt path loc := by
  induction units generalizing t with
  | nil => exact hat
  | cons u rest ih => exact ih (hat.mono (t.within_withFile ..))

/-- To write units changes no other file. -/
theorem entry?_withUnits_of_ne {name : String} (h : ∀ u ∈ units, name ≠ u.fileName) :
    FileTree.entry? (withUnits loc units t) (loc ++ [name]) = t.entry? (loc ++ [name]) := by
  induction units generalizing t with
  | nil => rfl
  | cons u rest ih =>
      have hplace : loc ++ [name] ≠ loc ++ [u.fileName] := by simpa using h u List.mem_cons_self
      rw [withUnits, ih fun v hv => h v (List.mem_cons_of_mem _ hv),
        FileTree.entry?_withFile_of_ne hplace]

/-- A unit whose file name no other has keeps its text. -/
theorem entry?_withUnits {u : CompiledUnit} (hu : u ∈ units)
    (hnodup : (units.map CompiledUnit.fileName).Nodup)
    (hfree : t.entry? (loc ++ [u.fileName]) ≠ some .folder) :
    FileTree.entry? (withUnits loc units t) (loc ++ [u.fileName]) = some (.file u.program.source) := by
  induction units generalizing t with
  | nil => cases hu
  | cons v rest ih =>
      rw [List.map_cons, List.nodup_cons] at hnodup
      rw [withUnits]
      rcases List.mem_cons.1 hu with rfl | hu
      · -- the units behind it go elsewhere
        rw [entry?_withUnits_of_ne, FileTree.entry?_withFile_self hfree]
        intro w hw hsame
        exact hnodup.1 (List.mem_map.2 ⟨w, hw, hsame.symm⟩)
      · exact ih hu hnodup.2 (mt FileTree.entry?_withFile_eq_folder_iff.1 hfree)

/-- What is left of units that were written. -/
theorem exists_withUnits_of_run (hscript : ∀ u ∈ units, IsScript u.fileName) (hne : units ≠ [])
    (h : (p.persistUnits units).run t = (.ok (), t')) :
    ∃ made loc, made.FolderAt p.scriptsPath loc
      ∧ (∀ u ∈ units, FileName.isValid u.fileName = true
          ∧ made.entry? (loc ++ [u.fileName]) ≠ some .folder)
      ∧ t' = withUnits loc units made := by
  obtain ⟨u, rest, hunits⟩ := List.exists_cons_of_ne_nil hne
  obtain ⟨made, hmade⟩ : ∃ made, t.makeFolders p.scriptsPath = .ok made := by
    rw [hunits, persistUnits] at h
    obtain ⟨path, between, hfirst, -⟩ := run_bind_eq_ok_iff.1 h
    obtain ⟨-, -, made, hmade, -⟩ := run_persist_eq_ok_iff.1 hfirst
    rw [(hscript u (hunits ▸ List.mem_cons_self)).folderOf] at hmade
    exact ⟨made, hmade⟩
  obtain ⟨loc, hat⟩ :=
    FileTree.exists_folderAt_of_makeFolders p.isFolderPath_scriptsPath.parts_ne_nil hmade
  rw [run_persistUnits_of_makeFolders hscript hne hmade, run_persistUnits_eq_ok_iff hscript hat] at h
  exact ⟨made, loc, hat, h⟩

/-- **Units with different file names keep their texts.** -/
theorem readText_of_run (hscript : ∀ u ∈ units, IsScript u.fileName)
    (hnodup : (units.map CompiledUnit.fileName).Nodup)
    (h : (p.persistUnits units).run t = (.ok (), t')) {u : CompiledUnit} (hu : u ∈ units) :
    t'.readText (joinPath p.scriptsPath u.fileName) = .ok u.program.source := by
  obtain ⟨made, loc, hat, hall, rfl⟩ :=
    exists_withUnits_of_run hscript (List.ne_nil_of_mem hu) h
  have hbase := p.isFolderPath_scriptsPath
  have hpart := (hscript u hu).isPart (hall u hu).1
  rw [hbase.joinPath_eq hpart,
    (folderAt_withUnits hat loc units).readText_eq_ok_iff hbase.ne_nil hpart]
  exact entry?_withUnits hu hnodup (hall u hu).2

/-- **Units can be written** where their names are valid and no folder is in
    their place. -/
theorem exists_run_persistUnits (hscript : ∀ u ∈ units, IsScript u.fileName)
    (hmade : t.makeFolders p.scriptsPath = .ok made)
    (hvalid : ∀ u ∈ units, FileName.isValid u.fileName = true)
    (hfree : ∀ u ∈ units,
      made.readText (joinPath p.scriptsPath u.fileName) ≠ .error .isDirectory) :
    ∃ t', (p.persistUnits units).run t = (.ok (), t') := by
  by_cases hne : units = []
  · exact ⟨t, hne ▸ rfl⟩
  · have hbase := p.isFolderPath_scriptsPath
    obtain ⟨loc, hat⟩ := FileTree.exists_folderAt_of_makeFolders hbase.parts_ne_nil hmade
    refine ⟨withUnits loc units made, ?_⟩
    rw [run_persistUnits_of_makeFolders hscript hne hmade, run_persistUnits_eq_ok_iff hscript hat]
    refine ⟨fun u hu => ⟨hvalid u hu, fun hfolder => hfree u hu ?_⟩, rfl⟩
    have hpart := (hscript u hu).isPart (hvalid u hu)
    rw [hbase.joinPath_eq hpart]
    exact hat.readText_of_folder hbase.ne_nil hpart hfolder

end ProjectFolder

/-! ## Builds -/

/-- **The files of a build are distinct exactly if no two names meet.** -/
theorem nodup_fileNames_iff {bs : List Blueprint}
    (hblank : ∀ b ∈ bs, Text.isBlankText b.name = false) :
    ((bs.map (CompiledUnit.of catalog options time)).map CompiledUnit.fileName).Nodup
      ↔ bs.Pairwise fun b b' => ¬ Text.Meet b.name.toList b'.name.toList := by
  rw [List.map_map, List.Nodup, List.pairwise_map]
  refine List.Pairwise.iff_of_mem fun {b b'} hb hb' => ?_
  exact not_congr (fileName_eq_iff (hblank b hb) (hblank b' hb'))

/-- **A build keeps every unit just where no two names meet.**  The blueprints
    of a build have names that differ and are not blank.  Their files have
    different names if and only if no two of the names become the same
    identifier.  The units can be written whenever the folder for them can be
    made, no folder is in their place and the text in front of the names has no
    character that file names must not have.  Once they are written, each file
    has the text of its unit if and only if the files have different names. -/
theorem units_kept_iff_no_names_meet {bs : List Blueprint} (hnames : (bs.map Blueprint.name).Nodup)
    (hblank : ∀ b ∈ bs, Text.isBlankText b.name = false) {project : Project}
    (hproject : compileProject bs catalog options time = project) :
    ((project.units.map CompiledUnit.fileName).Nodup
        ↔ bs.Pairwise fun b b' => ¬ Text.Meet b.name.toList b'.name.toList)
      ∧ (∀ (p : ProjectFolder) (s : Cli.Transcript) (t made : FileTree),
          t.makeFolders p.scriptsPath = .ok made →
          (∀ u ∈ project.units,
            made.readText (joinPath p.scriptsPath u.fileName) ≠ .error .isDirectory) →
          (∀ c ∈ options.functionPrefix.toList, c ∉ FileName.forbidden) →
          ∃ s' t', (Cli.writeUnits p project.units : Cli.OnTree Unit).run s t = ((.ok (), s'), t'))
      ∧ ∀ (p : ProjectFolder) (s s' : Cli.Transcript) (t t' : FileTree),
          (Cli.writeUnits p project.units : Cli.OnTree Unit).run s t = ((.ok (), s'), t') →
          ((∀ u ∈ project.units,
              t'.readText (joinPath p.scriptsPath u.fileName) = .ok u.program.source)
            ↔ (project.units.map CompiledUnit.fileName).Nodup) := by
  obtain rfl := hproject
  rw [units_compileProject]
  have hscript : ∀ u ∈ bs.map (CompiledUnit.of catalog options time), IsScript u.fileName := by
    intro u hu
    obtain ⟨b, -, rfl⟩ := List.mem_map.1 hu
    exact isScript_fileName b
  refine ⟨nodup_fileNames_iff hblank, ?_, ?_⟩
  · intro p s t made hmade hfree hahead
    have hvalid : ∀ u ∈ bs.map (CompiledUnit.of catalog options time),
        FileName.isValid u.fileName = true := by
      intro u hu
      obtain ⟨b, -, rfl⟩ := List.mem_map.1 hu
      exact isValid_fileName b hahead
    obtain ⟨t', hstored⟩ := ProjectFolder.exists_run_persistUnits hscript hmade hvalid hfree
    obtain ⟨s', hrun⟩ := Cli.run_writeUnits_eq_ok_iff.2 hstored
    exact ⟨s', t', hrun⟩
  · intro p s s' t t' hrun
    have hstored := Cli.run_writeUnits_eq_ok_iff.1 ⟨s', hrun⟩
    constructor
    · intro hkept
      rw [List.map_map, List.Nodup, List.pairwise_map]
      refine (List.pairwise_map.1 hnames).imp_of_mem ?_
      -- of two units in one file only one text is there, and it tells the name
      intro b b' hb hb' hne hfile
      refine hne (name_eq_of_fileName_eq (hblank b hb) (hblank b' hb') hfile ?_)
      have hread := hkept _ (List.mem_map_of_mem hb)
      have hread' := hkept _ (List.mem_map_of_mem hb')
      rw [show (CompiledUnit.of catalog options time b).fileName
        = (CompiledUnit.of catalog options time b').fileName from hfile, hread'] at hread
      exact (Except.ok.inj hread).symm
    · intro hnodup u hu
      exact ProjectFolder.readText_of_run hscript hnodup hstored hu

/-! ### Two names in one file -/

namespace SharedFiles

def folder : ProjectFolder := ⟨"proj"⟩

/-- Empty blueprints with these names. -/
def blueprints (names : List String) : List Blueprint := names.map fun name => { name := name }

/-- A build of them. -/
def build (names : List String) : Project := compileProject (blueprints names) .builtin {} ""

/-- An empty disk with the folder for the units. -/
def made : FileTree := { folders := [["proj"], ["proj", "scripts"]] }

/-- Whether all units of a build are kept. -/
def Kept (names : List String) (t : FileTree) : Prop :=
  ∀ u ∈ (build names).units,
    t.readText (joinPath folder.scriptsPath u.fileName) = .ok u.program.source

/-- The names of the files, and the folders that are made for them, by
    evaluation. -/
theorem file_names_and_made_folders :
    ({} : FileTree).makeFolders folder.scriptsPath = .ok made
      ∧ ((build ["a b", "a_b"]).units.map CompiledUnit.fileName) = ["BP_a_b.ts", "BP_a_b.ts"]
      ∧ ((build ["1", "a b"]).units.map CompiledUnit.fileName) = ["BP__1.ts", "BP_a_b.ts"]
      ∧ ∀ name ∈ ["BP_a_b.ts", "BP__1.ts"],
        made.readText (joinPath folder.scriptsPath name) = .error .notFound := by
  decide

theorem allowed_ahead : ∀ c ∈ ({} : Options).functionPrefix.toList, c ∉ FileName.forbidden := by
  intro c hc
  have hall : (({} : Options).functionPrefix.toList.all fun c => !FileName.forbidden.contains c)
      = true := by decide
  simpa using List.all_eq_true.1 hall c hc

/-- Of the units for `a b` and `a_b`, which differ, only one is kept; those for
    `1` and `a b` are both kept. -/
theorem only_one_of_two_kept :
    (∃ s t, (Cli.writeUnits folder (build ["a b", "a_b"]).units : Cli.OnTree Unit).run {} {}
          = ((.ok (), s), t) ∧ ¬ Kept ["a b", "a_b"] t)
      ∧ ∃ s t, (Cli.writeUnits folder (build ["1", "a b"]).units : Cli.OnTree Unit).run {} {}
          = ((.ok (), s), t) ∧ Kept ["1", "a b"] t := by
  obtain ⟨hmade, hshared, hown, hmissing⟩ := file_names_and_made_folders
  have hfree : ∀ names, ((build names).units.map CompiledUnit.fileName) ⊆ ["BP_a_b.ts", "BP__1.ts"] →
      ∀ u ∈ (build names).units,
        made.readText (joinPath folder.scriptsPath u.fileName) ≠ .error .isDirectory := by
    intro names hnames u hu
    rw [hmissing u.fileName (hnames (List.mem_map_of_mem hu))]
    decide
  have hbuild : ∀ names, compileProject (blueprints names) .builtin {} "" = build names :=
    fun _ => rfl
  obtain ⟨-, hwritten, hkept⟩ :=
    units_kept_iff_no_names_meet (by decide) (by decide) (hbuild ["a b", "a_b"])
  obtain ⟨-, hwritten', hkept'⟩ :=
    units_kept_iff_no_names_meet (by decide) (by decide) (hbuild ["1", "a b"])
  obtain ⟨s, t, ht⟩ :=
    hwritten folder {} {} made hmade (hfree _ (by rw [hshared]; decide)) allowed_ahead
  obtain ⟨s', t', ht'⟩ :=
    hwritten' folder {} {} made hmade (hfree _ (by rw [hown]; decide)) allowed_ahead
  refine ⟨⟨s, t, ht, fun h => ?_⟩, s', t', ht',
    (hkept' folder {} s' {} t' ht').2 (by rw [hown]; decide)⟩
  have hnodup := (hkept folder {} s {} t ht).1 h
  rw [hshared] at hnodup
  exact absurd hnodup (by decide)

end SharedFiles

end Blueprints
