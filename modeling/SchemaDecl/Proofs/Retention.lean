import SchemaDecl.Proofs.Outcome
import SchemaDecl.Proofs.Saving
import SchemaDecl.Proofs.Specifier

/-!
# Which files are kept

Files whose paths have the same names share a place, and the last of them is what stays there; so every file can be read
where it was written exactly if files that share a place have the same content (`Saved.holds_iff`).  Distinct entities
share a place when their names differ only in segments that stay, and an entity shares that of the helpers when it is
called so; then a file is lost.  Entities whose names are those of files in a folder never share a place
(`Config.eq_of_names_filePath`).
-/

namespace SchemaDecl

namespace Path

private theorem names_stripHere (filename : String) : names (stripHere filename) = names filename := by
  obtain ⟨count, hsegments⟩ := segments_stripHere filename
  have hpoints : (List.replicate count ".").filter (!isHere ·) = [] := by
    rw [List.filter_replicate]
    rfl
  rw [names, names, hsegments, List.filter_append, hpoints, List.nil_append]

/-- A text without a slash in front of a path becomes part of its first segment. -/
private theorem segments_append_of_noSlash {name : String} (h : '/' ∉ name.toList) (path : String) :
    ∃ s rest, segments path = s :: rest ∧ segments (name ++ path) = (name ++ s) :: rest := by
  obtain ⟨s, rest, hpath⟩ := List.exists_cons_of_ne_nil (segments_ne_nil path)
  have hslash : ∀ r ∈ (name ++ s) :: rest, '/' ∉ r.toList := by
    intro r hr
    rcases List.mem_cons.1 hr with rfl | hr
    · have hs : '/' ∉ s.toList := slash_not_mem_of_mem_segments (hpath ▸ List.mem_cons_self)
      simp [h, hs]
    · exact slash_not_mem_of_mem_segments (hpath ▸ List.mem_cons_of_mem s hr)
  have htext : name ++ path = ofSegments ((name ++ s) :: rest) := by
    rw [← ofSegments_segments path, hpath, ← String.toList_inj]
    cases rest <;> simp [ofSegments, List.intercalate]
  exact ⟨s, rest, hpath, by rw [htext, segments_ofSegments (by simp) hslash]⟩

/-- A name stays a name with something behind it. -/
private theorem isHere_append_of_isName {name : String} (h : IsName name) (s : String) :
    isHere (name ++ s) = false := by
  have hempty : name ++ s ≠ "" := fun htext => h.nonempty (String.append_eq_empty_iff.1 htext).1
  have hpoint : name ++ s ≠ "." := by
    intro htext
    have htexts : name.toList ++ s.toList = ['.'] := by rw [← String.toList_append, htext]; rfl
    rcases List.append_eq_singleton_iff.1 htexts with ⟨hname, -⟩ | ⟨hname, -⟩
    · exact h.nonempty (String.toList_inj.1 hname)
    · exact h.notHere (String.toList_inj.1 hname)
  simp [isHere, hempty, hpoint]

/-- A name in front of a path changes its first segment and makes that a name. -/
private theorem names_append_of_isName {name : String} (h : IsName name) (path : String) :
    ∃ s rest, segments path = s :: rest ∧ names (name ++ path) = (name ++ s) :: rest.filter (!isHere ·) := by
  obtain ⟨s, rest, hpath, hsegments⟩ := segments_append_of_noSlash h.noSlash path
  refine ⟨s, rest, hpath, ?_⟩
  rw [names, hsegments, List.filter_cons_of_pos (by simp [isHere_append_of_isName h s])]

end Path

/-! ### Files that share a place -/

/-- Each path holds the content of its file. -/
def FileTree.Holds (t : FileTree) (paths : List String) (files : List SourceFile) : Prop :=
  List.Forall₂ (fun path f => t.readText path = .ok f.content) paths files

private theorem names_pathBelow_eq_iff {root : String} {f g : SourceFile} :
    Path.names (f.pathBelow root) = Path.names (g.pathBelow root) ↔ Path.names f.filename = Path.names g.filename := by
  simp only [SourceFile.pathBelow, Path.names_join, Path.names_stripHere, List.append_cancel_left_eq]

/-- Files that have been written are all held exactly if those with the same names have the same content. -/
theorem Saved.holds_iff {root : String} {files begun : List SourceFile} {t t' : FileTree}
    (h : Saved root files begun t t') (haccepted : ∀ f ∈ files, ¬ Path.Escapes f.filename) :
    t'.Holds (files.map (·.pathBelow root)) files ↔
      ∀ f ∈ files, ∀ g ∈ files, Path.names f.filename = Path.names g.filename → f.content = g.content := by
  have hholds : t'.Holds (files.map (·.pathBelow root)) files ↔
      ∀ f ∈ files, t'.readText (f.pathBelow root) = .ok f.content := by
    rw [FileTree.Holds, List.forall₂_map_left_iff, List.forall₂_same]
  rw [hholds]
  constructor
  · intro hread f hf g hg hnames
    obtain ⟨l, hl, htext⟩ := FileTree.readText_eq_ok_iff.1 (hread f hf)
    obtain ⟨l', hl', htext'⟩ := FileTree.readText_eq_ok_iff.1 (hread g hg)
    have hplace := (locate_eq_iff (haccepted f hf) (haccepted g hg) hl hl').2 (names_pathBelow_eq_iff.2 hnames)
    rw [hplace, htext', Option.some.injEq, Node.file.injEq, Content.text.injEq] at htext
    exact htext.symm
  · intro hsame f hf
    obtain ⟨g, ⟨before, after, hfiles, hnames, -⟩, hread⟩ := h.content f hf
    have hg : g ∈ files := by
      rw [hfiles]
      exact List.mem_append_right _ List.mem_cons_self
    rw [hread, hsame f hf g hg (names_pathBelow_eq_iff.1 hnames.symm)]

/-! ### Files of a compilation -/

/-- What a text begins with, a longer text begins with. -/
private theorem head?_append_of_some {text : String} {c : Char} (h : text.toList.head? = some c) (rest : String) :
    (text ++ rest).toList.head? = some c := by
  rw [String.toList_append, List.head?_append, h]
  rfl

private theorem head?_helperSource : Coercion.helperSource.toList.head? = some 'e' := by
  have hfirst : "export function isBlank(value: any): boolean \x7b\n".toList.head? = some 'e' := by decide
  unfold Coercion.helperSource
  exact head?_append_of_some (head?_append_of_some (head?_append_of_some (head?_append_of_some hfirst _) _) _) _

/-- An entity begins with an import or with a blank line. -/
private theorem head?_importBlock (imports : List Import) :
    (importBlock imports ++ "\n").toList.head? = some 'i' ∨ (importBlock imports ++ "\n").toList.head? = some '\n' := by
  cases imports with
  | nil => exact .inr (by decide)
  | cons i imports =>
    left
    have hfirst : "import \x7b ".toList.head? = some 'i' := by decide
    have hline : (i.line ++ "\n").toList.head? = some 'i' :=
      head?_append_of_some (head?_append_of_some (head?_append_of_some (head?_append_of_some (head?_append_of_some
        hfirst _) _) _) _) _
    have hblock : importBlock (i :: imports) = i.line ++ "\n" ++ importBlock imports := by
      rw [importBlock, List.map_cons, String.join_cons]
      rfl
    rw [hblock]
    exact head?_append_of_some (head?_append_of_some hline _) _

/-- The helpers and an entity never have the same content. -/
private theorem content_ne_helperSource (e : Entity) (config : Config) (imports : List Import) :
    (e.render config imports).file.content ≠ (helperFile config).content := by
  obtain ⟨rest, hcontent⟩ := content_render e config imports
  intro heq
  have hhead : (importBlock imports ++ "\n" ++ rest).toList.head? = some 'e' := by
    rw [← hcontent, heq]
    exact head?_helperSource
  rcases head?_importBlock imports with hfirst | hfirst
  · rw [head?_append_of_some hfirst] at hhead
    cases hhead
  · rw [head?_append_of_some hfirst] at hhead
    cases hhead

namespace Config

variable {config : Config} {entities : List Entity} {tables : PathMap} {out : Output}

private theorem mem_allFiles_iff (h : config.compile entities tables = .ok out) {f : SourceFile} :
    f ∈ out.allFiles ↔ (∃ e ∈ entities, ∃ r, config.compileEntity e entities tables = .ok r ∧ f = r.file) ∨
      (config.mode = .classes ∧ f = helperFile config) := by
  obtain ⟨rs, hrs, rfl⟩ := compile_eq_ok h
  have hsupport : f ∈ config.mode.support config ↔ config.mode = .classes ∧ f = helperFile config := by
    cases config.mode <;> simp [Mode.support]
  have hfiles : f ∈ rs.map Rendered.file ↔
      ∃ e ∈ entities, ∃ r, config.compileEntity e entities tables = .ok r ∧ f = r.file := by
    rw [List.mem_map]
    constructor
    · rintro ⟨r, hr, rfl⟩
      obtain ⟨e, he, hcompiled⟩ := exists_mem_of_forall₂ hrs.flip hr
      exact ⟨e, he, r, hcompiled, rfl⟩
    · rintro ⟨e, he, r, hcompiled, rfl⟩
      obtain ⟨r', hr', hcompiled'⟩ := exists_mem_of_forall₂ hrs he
      obtain rfl : r = r' := Except.ok.inj (hcompiled.symm.trans hcompiled')
      exact ⟨r, hr', rfl⟩
  rw [Output.allFiles, List.mem_append, ← hsupport, ← hfiles]
  rfl

/-- Files of a compilation with the same names have the same content exactly if this is so for the entities, and in a
compilation to classes no entity has the place of the helpers. -/
private theorem sameContent_iff (h : config.compile entities tables = .ok out) :
    (∀ f ∈ out.allFiles, ∀ g ∈ out.allFiles, Path.names f.filename = Path.names g.filename → f.content = g.content) ↔
      (∀ e ∈ entities, ∀ e' ∈ entities, Path.names (config.filePath e.name) = Path.names (config.filePath e'.name) →
        (config.compileEntity e entities tables).map (·.file.content) =
          (config.compileEntity e' entities tables).map (·.file.content)) ∧
      (config.mode = .classes → ∀ e ∈ entities,
        Path.names (config.filePath e.name) ≠ Path.names (helperFile config).filename) := by
  have hcompiled : ∀ e ∈ entities, ∃ r, config.compileEntity e entities tables = .ok r ∧ r.file ∈ out.allFiles := by
    intro e he
    obtain ⟨r, hr⟩ := exists_compileEntity_of_compile h he
    exact ⟨r, hr, (mem_allFiles_iff h).2 (.inl ⟨e, he, r, hr, rfl⟩)⟩
  have hhelper : ∀ {e : Entity} {r : Rendered}, config.compileEntity e entities tables = .ok r →
      r.file.content ≠ (helperFile config).content := by
    intro e r hr
    obtain ⟨imports, -, rfl, -⟩ := compileEntity_eq_ok hr
    exact content_ne_helperSource e config imports
  constructor
  · intro hsame
    constructor
    · intro e he e' he' hnames
      obtain ⟨r, hr, hmem⟩ := hcompiled e he
      obtain ⟨r', hr', hmem'⟩ := hcompiled e' he'
      rw [← filename_of_compileEntity hr, ← filename_of_compileEntity hr'] at hnames
      rw [hr, hr']
      exact congrArg Except.ok (hsame _ hmem _ hmem' hnames)
    · intro hmode e he hnames
      obtain ⟨r, hr, hmem⟩ := hcompiled e he
      rw [← filename_of_compileEntity hr] at hnames
      exact hhelper hr (hsame _ hmem _ ((mem_allFiles_iff h).2 (.inr ⟨hmode, rfl⟩)) hnames)
  · rintro ⟨hentities, hapart⟩ f hf g hg hnames
    rcases (mem_allFiles_iff h).1 hf with ⟨e, he, r, hr, rfl⟩ | ⟨hmode, rfl⟩
    · rw [filename_of_compileEntity hr] at hnames
      rcases (mem_allFiles_iff h).1 hg with ⟨e', he', r', hr', rfl⟩ | ⟨hmode, rfl⟩
      · rw [filename_of_compileEntity hr'] at hnames
        have hcontent := hentities e he e' he' hnames
        rw [hr, hr'] at hcontent
        exact Except.ok.inj hcontent
      · exact absurd hnames (hapart hmode e he)
    · rcases (mem_allFiles_iff h).1 hg with ⟨e', he', r', hr', rfl⟩ | ⟨-, rfl⟩
      · rw [filename_of_compileEntity hr'] at hnames
        exact absurd hnames.symm (hapart hmode e' he')
      · rfl

/-- The extension goes to a plain name, and perhaps adds further names. -/
private theorem names_withExtension (config : Config) :
    ∃ s rest, ∀ name, Path.IsName name → Path.names (config.withExtension name) = (name ++ s) :: rest := by
  obtain ⟨s, rest, hsuffix⟩ := List.exists_cons_of_ne_nil (Path.segments_ne_nil (config.withExtension ""))
  refine ⟨s, rest.filter (!Path.isHere ·), fun name hname => ?_⟩
  obtain ⟨s', rest', hsuffix', hnames⟩ := Path.names_append_of_isName hname (config.withExtension "")
  rw [hsuffix] at hsuffix'
  cases hsuffix'
  rw [withExtension_eq_append, hnames]

/-- Entities whose names are those of files in a folder share a place only if they have the same name. -/
theorem eq_of_names_filePath {name name' : String} (hname : Path.IsName name) (hname' : Path.IsName name')
    (h : Path.names (config.filePath name) = Path.names (config.filePath name')) : name = name' := by
  obtain ⟨s, rest, hnames⟩ := config.names_withExtension
  rw [names_filePath, names_filePath, hnames name hname, hnames name' hname', List.append_cancel_left_eq] at h
  exact (String.append_left_inj s).1 (List.cons.inj h).1

/-- The helpers are one folder further down than such an entity. -/
theorem names_filePath_ne_helperFile {name : String} (h : Path.IsName name) :
    Path.names (config.filePath name) ≠ Path.names (helperFile config).filename := by
  obtain ⟨s, rest, hnames⟩ := config.names_withExtension
  have htransform : Path.IsName "transform" := ⟨by decide, by decide, by decide, by decide⟩
  have hruntime : Path.names "runtime" = ["runtime"] := by decide
  have htext : "runtime/transform" = "runtime" ++ "/" ++ "transform" := by decide
  have hhelper : (helperFile config).filename = config.filePath "runtime/transform" := rfl
  rw [hhelper, names_filePath, names_filePath, hnames name h, htext, withExtension_append, Path.names_append_slash,
    hnames _ htransform, hruntime]
  intro heq
  have hlength := congrArg List.length heq
  simp at hlength

private theorem nodup_of_compile (hunique : config.allowDuplicateNames = false)
    (h : config.compile entities tables = .ok out) : (entities.map Entity.name).Nodup := by
  have hclash := (compile_ok_iff.1 ⟨out, h⟩).1
  exact not_not.1 fun hrepeated => hclash ⟨hunique, hrepeated⟩

/-- When the output of a compilation has been written, every file can be read where it was written exactly if entities
whose files have the same names have the same content, and no entity has the place of the helpers.  So it is when every
entity is called as a file in a folder can be. -/
theorem compile_write_holds_iff (hunique : config.allowDuplicateNames = false)
    (hout : config.compile entities tables = .ok out) {root : String} {t t' : FileTree} {paths : List String}
    (hwrite : (out.write root).run.run t = (.ok paths, t')) :
    paths.length = out.fileCount ∧
    (t'.Holds paths out.allFiles ↔
      (∀ e ∈ entities, ∀ e' ∈ entities, Path.names (config.filePath e.name) = Path.names (config.filePath e'.name) →
        (config.compileEntity e entities tables).map (·.file.content) =
          (config.compileEntity e' entities tables).map (·.file.content)) ∧
      (config.mode = .classes → ∀ e ∈ entities,
        Path.names (config.filePath e.name) ≠ Path.names (helperFile config).filename)) ∧
    ((∀ e ∈ entities, Path.IsName e.name) → t'.Holds paths out.allFiles) := by
  obtain ⟨haccepted, rfl, hsaved⟩ := Output.saved_of_write hwrite
  have hiff := (hsaved.holds_iff haccepted).trans (sameContent_iff hout)
  refine ⟨by simp [Output.allFiles, Output.fileCount], hiff, ?_⟩
  intro hnames
  refine hiff.2 ⟨?_, fun _ e he => names_filePath_ne_helperFile (hnames e he)⟩
  intro e he e' he' hplace
  have hname := eq_of_names_filePath (hnames e he) (hnames e' he') hplace
  obtain rfl := List.inj_on_of_nodup_map (nodup_of_compile hunique hout) he he' hname
  rfl

/-- Two classes and the helpers that they need. -/
theorem compile_write_holds_classes :
    let config : Config := {}
    let entities : List Entity := [⟨"Order", [⟨"buyer", false, false, .schema "User"⟩]⟩, ⟨"User", []⟩]
    ∃ out paths t', config.compile entities .empty = .ok out ∧
      (out.write "out").run.run (FileTree.fresh ["d"]) = (.ok paths, t') ∧ paths.length = 3 ∧
      t'.Holds paths out.allFiles := by
  intro config entities
  have hcompiled : ∃ out, config.compile entities .empty = .ok out ∧ out.fileCount = 3 ∧
      ((out.write "out").run.run (FileTree.fresh ["d"])).1.isOk = true := ⟨_, rfl, rfl, by decide +kernel⟩
  obtain ⟨out, hout, hcount, hok⟩ := hcompiled
  have hnames : ∀ e ∈ entities, Path.IsName e.name :=
    List.forall_mem_cons.2 ⟨⟨by decide, by decide, by decide, by decide⟩,
      List.forall_mem_singleton.2 ⟨by decide, by decide, by decide, by decide⟩⟩
  cases hrun : (out.write "out").run.run (FileTree.fresh ["d"]) with
  | mk r t' =>
    rw [hrun] at hok
    cases r with
    | error e => cases hok
    | ok paths =>
      obtain ⟨hlength, -, hholds⟩ := compile_write_holds_iff rfl hout hrun
      exact ⟨out, paths, t', hout, hrun, hlength.trans hcount, hholds hnames⟩

/-- Two names that differ in a segment that stays: the file of the first entity is lost. -/
theorem compile_write_loses_first :
    let config : Config := { mode := .interfaces }
    let entities : List Entity := [⟨"A", []⟩, ⟨"./A", []⟩]
    ∃ out paths t', config.compile entities .empty = .ok out ∧
      (out.write "out").run.run (FileTree.fresh ["d"]) = (.ok paths, t') ∧ ¬ t'.Holds paths out.allFiles := by
  intro config entities
  have hcompiled : ∃ out, config.compile entities .empty = .ok out ∧
      out.allFiles.map SourceFile.content =
        ["\nexport interface A \x7b\n\x7d\n", "\nexport interface ./A \x7b\n\x7d\n"] ∧
      ((out.write "out").run.run (FileTree.fresh ["d"])).1 = .ok ["out/ts-schema/A.ts", "out/ts-schema/./A.ts"] ∧
      ((out.write "out").run.run (FileTree.fresh ["d"])).2.readText "out/ts-schema/A.ts" =
        .ok "\nexport interface ./A \x7b\n\x7d\n" :=
    ⟨_, rfl, by decide +kernel, by decide +kernel, by decide +kernel⟩
  obtain ⟨out, hout, hcontents, hpaths, hread⟩ := hcompiled
  refine ⟨out, _, _, hout, Prod.ext hpaths rfl, ?_⟩
  intro hholds
  obtain ⟨f, rest, hfirst, -, hfiles⟩ := List.forall₂_cons_left_iff.1 hholds
  rw [hfiles, List.map_cons] at hcontents
  have hcontent := (List.cons.inj hcontents).1
  rw [hread, hcontent] at hfirst
  exact absurd (Except.ok.inj hfirst) (by decide)

end Config

end SchemaDecl
