import SchemaDecl.Command.Run
import SchemaDecl.Proofs.Closure
import SchemaDecl.Proofs.Saving

/-!
# The stages of a run

A run reads the document, reads the tables that are added to it, compiles, and checks every filename before it writes
the first file.  `Invocation.Stops` says in which of these stages a run stops and with which failure,
`Invocation.Passes` that it gets through all of them.  A run that stops leaves the tree as it was, and a dry run lists
the files that the same run would write.
-/

namespace SchemaDecl

private theorem Script.run_map {α β : Type} (f : α → β) (s : Script α) (t : FileTree) :
    (f <$> s).run t = (f (s.run t).1, (s.run t).2) :=
  run_andThen s (fun a => .done (f a)) t

namespace Invocation

/-- The input holds a document. -/
def Loads (i : Invocation) (t : FileTree) (d : Document) : Prop :=
  ∃ text, t.readText i.input = .ok text ∧ Document.parse text = .ok d

/-- The `--tables` file adds some tables; without such a file there are none to add. -/
def Adds (i : Invocation) (t : FileTree) (added : PathMap) : Prop :=
  (i.tables = none ∧ added = .empty) ∨
  ∃ path text, i.tables = some path ∧ t.readText path = .ok text ∧ PathMap.parse text = .ok added

/-- Compiling the document gives a result.  A table that was added counts before the one of the document. -/
def Compiles (i : Invocation) (t : FileTree) (result : Except CompileError Output) : Prop :=
  ∃ d added tables, i.Loads t d ∧ i.Adds t added ∧
    (∀ name, tables.get? name = (added.get? name).or (d.tables.get? name)) ∧
    i.config.compile d.entities tables = result

/-- A run stops in some stage, after it got through those before. -/
inductive Stops (i : Invocation) (t : FileTree) : Failure → Prop
  | unread {e : FileError} (read : t.readText i.input = .error e) : Stops i t (.load i.input (.file e))
  | undecoded {text : String} {fault : Json.Fault} (read : t.readText i.input = .ok text)
      (parse : Document.parse text = .error fault) : Stops i t (.load i.input (.json fault))
  | tablesUnread {d : Document} {path : String} {e : FileError} (loads : i.Loads t d) (given : i.tables = some path)
      (read : t.readText path = .error e) : Stops i t (.readTables path e)
  | tablesUndecoded {d : Document} {path text : String} {fault : Json.Fault} (loads : i.Loads t d)
      (given : i.tables = some path) (read : t.readText path = .ok text) (parse : PathMap.parse text = .error fault) :
      Stops i t (.decodeTables path fault)
  | uncompiled {e : CompileError} (compiles : i.Compiles t (.error e)) : Stops i t (.compile e)
  | refused {out : Output} {k : Nat} {filename : String} (compiles : i.Compiles t (.ok out)) (wet : i.dryRun = false)
      (first : FirstEscape out.allFiles k filename) : Stops i t (.write i.outDir (.outside filename))

/-- A run gets through all stages.  A dry run does not check filenames. -/
structure Passes (i : Invocation) (t : FileTree) (out : Output) : Prop where
  compiles : i.Compiles t (.ok out)
  accepted : i.dryRun = false → ∀ f ∈ out.allFiles, ¬ Path.Escapes f.filename

variable {i : Invocation} {t : FileTree} {d : Document} {added : PathMap} {out : Output}

/-! ### Loading -/

private theorem run_load_of_error {path : String} {e : FileError} (h : t.readText path = .error e) :
    (Document.load path).run t = (.error (.file e), t) := by
  simp only [Document.load, Script.run, h]

private theorem run_load_of_ok {path text : String} (h : t.readText path = .ok text) :
    (Document.load path).run t = ((Document.parse text).mapError .json, t) := by
  simp only [Document.load, Script.run, h]

private theorem run_loadTables_of_error {path : String} {e : FileError} (h : t.readText path = .error e) :
    (loadTables path).run t = (.error (.readTables path e), t) := by
  simp only [loadTables, Script.run, h]

private theorem run_loadTables_of_ok {path text : String} (h : t.readText path = .ok text) :
    (loadTables path).run t = ((PathMap.parse text).mapError (.decodeTables path), t) := by
  simp only [loadTables, Script.run, h]

private theorem loadDocument_of_unread {e : FileError} (h : t.readText i.input = .error e) :
    i.loadDocument.run.run t = (.error (.load i.input (.file e)), t) := by
  refine Script.run_bind_error ((Script.run_map _ _ t).trans ?_)
  rw [run_load_of_error h]
  rfl

private theorem loadDocument_of_undecoded {text : String} {fault : Json.Fault} (hread : t.readText i.input = .ok text)
    (hparse : Document.parse text = .error fault) :
    i.loadDocument.run.run t = (.error (.load i.input (.json fault)), t) := by
  refine Script.run_bind_error ((Script.run_map _ _ t).trans ?_)
  rw [run_load_of_ok hread, hparse]
  rfl

theorem Loads.run (h : i.Loads t d) :
    ((·.mapError (Failure.load i.input)) <$> Document.load i.input).run t = (.ok d, t) := by
  obtain ⟨text, hread, hparse⟩ := h
  rw [Script.run_map, run_load_of_ok hread, hparse]
  rfl

private theorem loadDocument_of_tablesUnread {path : String} {e : FileError} (hd : i.Loads t d)
    (hgiven : i.tables = some path) (hread : t.readText path = .error e) :
    i.loadDocument.run.run t = (.error (.readTables path e), t) := by
  refine (Script.run_bind_ok hd.run).trans ?_
  rw [hgiven]
  exact Script.run_bind_error (run_loadTables_of_error hread)

private theorem loadDocument_of_tablesUndecoded {path text : String} {fault : Json.Fault} (hd : i.Loads t d)
    (hgiven : i.tables = some path) (hread : t.readText path = .ok text) (hparse : PathMap.parse text = .error fault) :
    i.loadDocument.run.run t = (.error (.decodeTables path fault), t) := by
  refine (Script.run_bind_ok hd.run).trans ?_
  rw [hgiven]
  refine Script.run_bind_error ((run_loadTables_of_ok hread).trans ?_)
  rw [hparse]
  rfl

private theorem loadDocument_of_adds (hd : i.Loads t d) (hadded : i.Adds t added) :
    i.loadDocument.run.run t = (.ok (d.mergeTables added), t) := by
  refine (Script.run_bind_ok hd.run).trans ?_
  rcases hadded with ⟨hgiven, rfl⟩ | ⟨path, text, hgiven, hread, hparse⟩
  · rw [hgiven]
    rfl
  · rw [hgiven]
    refine Script.run_bind_ok ((run_loadTables_of_ok hread).trans ?_)
    rw [hparse]
    rfl

/-! ### Compiling and writing -/

/-- A compilation looks into the tables of the merged document. -/
private theorem Compiles.exists_document {result : Except CompileError Output} (h : i.Compiles t result) :
    ∃ d, i.loadDocument.run.run t = (.ok d, t) ∧ i.config.compileDocument d = result := by
  obtain ⟨d, added, tables, hd, hadded, hget, hcompile⟩ := h
  have htables : tables = d.tables.merge added := PathMap.ext_get? fun name => by rw [hget, PathMap.get?_merge]
  subst htables
  exact ⟨d.mergeTables added, loadDocument_of_adds hd hadded, hcompile⟩

private theorem run_of_loadDocument {failure : Failure} (h : i.loadDocument.run.run t = (.error failure, t)) :
    i.run.run.run t = (.error failure, t) := Script.run_bind_error h

private theorem run_of_uncompiled {e : CompileError} (h : i.Compiles t (.error e)) :
    i.run.run.run t = (.error (.compile e), t) := by
  obtain ⟨d, hload, hcompile⟩ := h.exists_document
  refine (Script.run_bind_ok hload).trans ?_
  rw [hcompile]
  rfl

/-- Once the document compiles, it depends on the flag whether the files are listed or written. -/
theorem Compiles.run (h : i.Compiles t (.ok out)) :
    i.run.run.run t =
      (if i.dryRun then return .listed (out.allFiles.map SourceFile.filename)
      else return .written (← ExceptT.mk ((·.mapError (.write i.outDir)) <$> out.write i.outDir)) :
        ExceptT Failure Script Report).run.run t := by
  obtain ⟨d, hload, hcompile⟩ := h.exists_document
  have houtput : (ExceptT.mk (pure ((i.config.compileDocument d).mapError .compile)) :
      ExceptT Failure Script Output).run.run t = (.ok out, t) := by
    rw [hcompile]
    rfl
  exact (Script.run_bind_ok hload).trans (Script.run_bind_ok houtput)

theorem run_of_dry (h : i.Compiles t (.ok out)) (hdry : i.dryRun = true) :
    i.run.run.run t = (.ok (.listed (out.allFiles.map SourceFile.filename)), t) := by
  rw [h.run, if_pos hdry]
  rfl

theorem run_of_wet {r : Except FileError (List String)} {t' : FileTree} (h : i.Compiles t (.ok out))
    (hwet : i.dryRun = false) (hwrite : (out.write i.outDir).run.run t = (r, t')) :
    i.run.run.run t = ((r.mapError (.write i.outDir)).map .written, t') := by
  have hmap : ((·.mapError (Failure.write i.outDir)) <$> (out.write i.outDir).run).run t =
      (r.mapError (.write i.outDir), t') := by rw [Script.run_map, hwrite]
  rw [h.run, if_neg (by simp [hwet])]
  cases r with
  | ok paths => exact Script.run_bind_ok hmap
  | error e => exact Script.run_bind_error hmap

/-! ### Every run -/

private theorem stops_or_adds (hd : i.Loads t d) : (∃ failure, i.Stops t failure) ∨ ∃ added, i.Adds t added := by
  cases hgiven : i.tables with
  | none => exact .inr ⟨.empty, .inl ⟨hgiven, rfl⟩⟩
  | some path =>
    cases hread : t.readText path with
    | error e => exact .inl ⟨_, .tablesUnread hd hgiven hread⟩
    | ok text =>
      cases hparse : PathMap.parse text with
      | error fault => exact .inl ⟨_, .tablesUndecoded hd hgiven hread hparse⟩
      | ok added => exact .inr ⟨added, .inr ⟨path, text, hgiven, hread, hparse⟩⟩

private theorem stops_or_passes_of_compiles (h : i.Compiles t (.ok out)) :
    (∃ failure, i.Stops t failure) ∨ i.Passes t out := by
  cases htargets : out.targets i.outDir with
  | ok targets => exact .inr ⟨h, fun _ => (Output.targets_eq_ok htargets).1⟩
  | error e =>
    obtain ⟨k, filename, hfirst, -⟩ := Output.targets_eq_error htargets
    cases hdry : i.dryRun with
    | false => exact .inl ⟨_, .refused h hdry hfirst⟩
    | true => exact .inr ⟨h, fun hwet => by rw [hdry] at hwet; cases hwet⟩

theorem stops_or_passes (i : Invocation) (t : FileTree) : (∃ failure, i.Stops t failure) ∨ ∃ out, i.Passes t out := by
  cases hread : t.readText i.input with
  | error e => exact .inl ⟨_, .unread hread⟩
  | ok text =>
    cases hparse : Document.parse text with
    | error fault => exact .inl ⟨_, .undecoded hread hparse⟩
    | ok d =>
      have hd : i.Loads t d := ⟨text, hread, hparse⟩
      rcases stops_or_adds hd with hstops | ⟨added, hadded⟩
      · exact .inl hstops
      · have hcompiles : i.Compiles t (i.config.compile d.entities (d.tables.merge added)) :=
          ⟨d, added, _, hd, hadded, PathMap.get?_merge d.tables added, rfl⟩
        cases hresult : i.config.compile d.entities (d.tables.merge added) with
        | error e => exact .inl ⟨_, .uncompiled (hresult ▸ hcompiles)⟩
        | ok out =>
          rcases stops_or_passes_of_compiles (hresult ▸ hcompiles) with hstops | hpasses
          · exact .inl hstops
          · exact .inr ⟨out, hpasses⟩

theorem Stops.run {failure : Failure} (h : i.Stops t failure) : i.run.run.run t = (.error failure, t) := by
  cases h with
  | unread hread => exact run_of_loadDocument (loadDocument_of_unread hread)
  | undecoded hread hparse => exact run_of_loadDocument (loadDocument_of_undecoded hread hparse)
  | tablesUnread hd hgiven hread => exact run_of_loadDocument (loadDocument_of_tablesUnread hd hgiven hread)
  | tablesUndecoded hd hgiven hread hparse =>
    exact run_of_loadDocument (loadDocument_of_tablesUndecoded hd hgiven hread hparse)
  | uncompiled hcompiles => exact run_of_uncompiled hcompiles
  | refused hcompiles hwet hfirst =>
    refine run_of_wet hcompiles hwet (r := .error _) ?_
    unfold Output.write
    rw [Output.targets_of_firstEscape hfirst]
    rfl

private theorem mapM_targetPath {files : List SourceFile} (h : ∀ f ∈ files, ¬ Path.Escapes f.filename) (root : String) :
    (files.map SourceFile.filename).mapM (targetPath root) = .ok (files.map (·.pathBelow root)) := by
  refine mapM_eq_ok_iff.2 (List.forall₂_map_left_iff.2 (List.forall₂_map_right_iff.2 (List.forall₂_same.2 ?_)))
  intro f hf
  rw [targetPath_of_not_escapes (h f hf)]
  rfl

/-- A run that writes what it compiles is a dry run that lists it: the names on the list are those of the paths. -/
theorem dry_of_wet {report : Report} {t' : FileTree}
    (h : ({ i with dryRun := false } : Invocation).run.run.run t = (.ok report, t')) :
    ∃ out paths, i.Compiles t (.ok out) ∧ (out.write i.outDir).run.run t = (.ok paths, t') ∧ report = .written paths ∧
      ({ i with dryRun := true } : Invocation).run.run.run t =
        (.ok (.listed (out.allFiles.map SourceFile.filename)), t) ∧
      (out.allFiles.map SourceFile.filename).mapM (targetPath i.outDir) = .ok paths := by
  rcases stops_or_passes { i with dryRun := false } t with ⟨failure, hstops⟩ | ⟨out, hpasses⟩
  · rw [hstops.run] at h
    cases h
  · -- neither the document nor the tables depend on the flag
    have hcompiles : i.Compiles t (.ok out) := hpasses.compiles
    have hdry : ({ i with dryRun := true } : Invocation).Compiles t (.ok out) := hpasses.compiles
    rcases hwrite : (out.write i.outDir).run.run t with ⟨r, tree⟩
    rw [run_of_wet hpasses.compiles rfl hwrite] at h
    cases r with
    | error e => cases h
    | ok paths =>
      cases h
      obtain ⟨haccepted, rfl, -⟩ := Output.saved_of_write hwrite
      exact ⟨out, _, hcompiles, hwrite, rfl, run_of_dry hdry rfl, mapM_targetPath haccepted i.outDir⟩

/-- A run touches the tree only after everything has been checked.  Either it stops in one of its stages, and then its
failure is the one of that stage and the tree is as it was, or it gets through all of them, and then its files are
listed or written.  A dry run never changes the tree, and if the same run without the flag succeeds, the names it prints
are those that lead to the paths written. -/
theorem run_stages (i : Invocation) (t : FileTree) :
    ((∃ failure, i.Stops t failure) ∨ ∃ out, i.Passes t out) ∧
    (∀ failure, i.Stops t failure → i.run.run.run t = (.error failure, t)) ∧
    (∀ out, i.Passes t out → i.dryRun = true →
      i.run.run.run t = (.ok (.listed (out.allFiles.map SourceFile.filename)), t)) ∧
    (∀ out r t', i.Passes t out → i.dryRun = false → (out.write i.outDir).run.run t = (r, t') →
      i.run.run.run t = ((r.mapError (.write i.outDir)).map .written, t')) ∧
    (i.dryRun = true → (i.run.run.run t).2 = t) ∧
    ∀ report t', ({ i with dryRun := false } : Invocation).run.run.run t = (.ok report, t') →
      ∃ filenames paths, report = .written paths ∧
        ({ i with dryRun := true } : Invocation).run.run.run t = (.ok (.listed filenames), t) ∧
        (Ending.finished (.listed filenames)).stdout = String.join (filenames.map (· ++ "\n")) ∧
        filenames.mapM (targetPath i.outDir) = .ok paths ∧
        ∃ out, i.Compiles t (.ok out) ∧ (out.write i.outDir).run.run t = (.ok paths, t') := by
  refine ⟨stops_or_passes i t, fun _ h => h.run, fun _ h hdry => run_of_dry h.compiles hdry,
    fun _ _ _ h hwet hwrite => run_of_wet h.compiles hwet hwrite, ?_, ?_⟩
  · intro hdry
    rcases stops_or_passes i t with ⟨failure, hstops⟩ | ⟨out, hpasses⟩
    · rw [hstops.run]
    · rw [run_of_dry hpasses.compiles hdry]
  · intro report t' h
    obtain ⟨out, paths, hcompiles, hwrite, hreport, hlisted, hpaths⟩ := dry_of_wet h
    exact ⟨_, paths, hreport, hlisted, rfl, hpaths, out, hcompiles, hwrite⟩

/-- A table that both the document and the `--tables` file have, written and listed, and a `--tables` file that is
missing. -/
theorem run_stages_overridden :
    let field := "\x7b\"key\":\"p\",\"type\":\x7b\"type\":\"table\",\"table_name\":\"T\"\x7d\x7d"
    let schema := "\x7b\"name\":\"A\",\"items\":[" ++ field ++ "]\x7d"
    let text := "\x7b\"schemas\":[" ++ schema ++ "],\"tables\":\x7b\"T\":\"./old\"\x7d\x7d"
    let t := ((FileTree.fresh ["d"]).put ["d", "s.json"] (.file (.text text))).put ["d", "t.json"]
      (.file (.text "\x7b\"T\":\"./new\"\x7d"))
    let i : Invocation := ⟨"s.json", "out", { mode := .interfaces }, some "t.json", false⟩
    (∃ filenames t', i.run.run.run t = (.ok (.written ["out/ts-schema/A.ts"]), t') ∧
      t'.readText "out/ts-schema/A.ts" =
        .ok "import \x7b T \x7d from '../new'\n\nexport interface A \x7b\n  p?: T;\n\x7d\n" ∧
      ({ i with dryRun := true } : Invocation).run.run.run t = (.ok (.listed filenames), t) ∧
      filenames.mapM (targetPath "out") = .ok ["out/ts-schema/A.ts"]) ∧
    ({ i with tables := some "u.json" } : Invocation).run.run.run t = (.error (.readTables "u.json" .notFound), t) := by
  intro field schema text t i
  constructor
  · have hreport : (i.run.run.run t).1 = .ok (.written ["out/ts-schema/A.ts"]) := by decide +kernel
    have hread : (i.run.run.run t).2.readText "out/ts-schema/A.ts" =
        .ok "import \x7b T \x7d from '../new'\n\nexport interface A \x7b\n  p?: T;\n\x7d\n" := by decide +kernel
    have hpair : ∀ r : Except Failure Report × FileTree, r = (r.1, r.2) := fun r => rfl
    have hrun := hpair (i.run.run.run t)
    rw [hreport] at hrun
    obtain ⟨filenames, paths, hwritten, hlisted, -, hpaths, -⟩ := (run_stages i t).2.2.2.2.2 _ _ hrun
    cases hwritten
    exact ⟨filenames, _, hrun, hread, hlisted, hpaths⟩
  · have hparsed : (Document.parse text).isOk = true := by decide +kernel
    cases hparse : Document.parse text with
    | error fault =>
      rw [hparse] at hparsed
      cases hparsed
    | ok d =>
      have hd : ({ i with tables := some "u.json" } : Invocation).Loads t d := ⟨text, by decide +kernel, hparse⟩
      exact (run_stages _ t).2.1 _ (.tablesUnread hd rfl (by decide +kernel))

end Invocation

end SchemaDecl
