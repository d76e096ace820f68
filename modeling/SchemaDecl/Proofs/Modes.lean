import SchemaDecl.Proofs.Resolution

/-!
# Classes and interfaces

The two modes share everything but what they write around the members.  Names are checked and references resolved
without a look at the mode (`Config.resolved_inMode`), and a compilation is that resolution followed by rendering
(`Config.compile_eq_resolved`); so both modes stop at the same error or give files of the same names.  Line by line an
interface is a class without the external imports and the directives, with another header and other marks on members.
Which directives a class can have above a member follows from the field alone (`Field.Directs`).
-/

namespace SchemaDecl

/-! ### Resolution without rendering -/

namespace Config

/-- The same settings in another mode. -/
def inMode (config : Config) (mode : Mode) : Config := { config with mode := mode }

/-- The imports of all entities, once the names have been checked. -/
def resolved (config : Config) (entities : List Entity) (tables : PathMap) : Except CompileError (List (List Import)) :=
  (config.checkNames entities).result >>= fun _ =>
    entities.mapM fun e => (Scope.resolve ⟨entities, tables, config⟩ e).result

/-- The output of entities rendered with their imports. -/
def rendering (config : Config) (entities : List Entity) (imports : List (List Import)) : Output :=
  config.assemble (List.zipWith (fun e is => e.render config is) entities imports)

theorem compile_eq_resolved (config : Config) (entities : List Entity) (tables : PathMap) :
    config.compile entities tables = (config.resolved entities tables).map (config.rendering entities) := by
  have hentity : (fun e => config.compileEntity e entities tables) = fun e =>
      ((Scope.resolve ⟨entities, tables, config⟩ e).result).map fun is => e.render config is := by
    funext e
    rw [compileEntity]
    cases (Scope.resolve ⟨entities, tables, config⟩ e).result <;> rfl
  rw [compile_eq, resolved, hentity, mapM_map_eq]
  cases (config.checkNames entities).result with
  | error err => rfl
  | ok u => cases entities.mapM fun e => (Scope.resolve ⟨entities, tables, config⟩ e).result <;> rfl

/-- The mode has no part in what a reference leads to. -/
theorem resolved_inMode (config : Config) (mode : Mode) (entities : List Entity) (tables : PathMap) :
    (config.inMode mode).resolved entities tables = config.resolved entities tables := by
  -- of the settings a field's resolution looks only at the import of enums and the path of entities
  have hfield : Scope.resolveField ⟨entities, tables, config.inMode mode⟩ =
      Scope.resolveField ⟨entities, tables, config⟩ := rfl
  have hresolve : (fun e => (Scope.resolve ⟨entities, tables, config.inMode mode⟩ e).result) =
      fun e => (Scope.resolve ⟨entities, tables, config⟩ e).result := by
    funext e
    rw [Scope.resolve, Scope.resolve, Scope.resolveFields_result, Scope.resolveFields_result, hfield]
  rw [resolved, resolved, hresolve]
  rfl

end Config

/-! ### Directives -/

namespace Field

/-- What directives a field can have: one on whether it must be given, and those that its kind asks for. -/
inductive Directs (f : Field) : Directive → Prop
  | notEmpty (required : f.required = true) : Directs f (.isNotEmpty f.key)
  | optional (optional : f.required = false) : Directs f .isOptional
  | transform {t : NativeType} {c : Coercion} (kind : f.kind = .native t)
    (needed : Coercion.forNative? t f.array = some c) : Directs f (.transform c)
  | isNumber (kind : f.kind = .native .number) : Directs f (.isNumber f.key f.array)
  | isBoolean (kind : f.kind = .native .boolean) : Directs f (.isBoolean f.key f.array)
  | isString (kind : f.kind = .native .string) : Directs f (.isString f.key f.array)
  | isEnum {name : String} (kind : f.kind = .enum name) : Directs f (.isEnum name f.key f.array)
  | isArray {name : String} (kind : f.kind = .nested name) (array : f.array = true) : Directs f .isArray
  | validateNested {name : String} (kind : f.kind = .nested name) : Directs f (.validateNested f.array)
  | isObject {name : String} (kind : f.kind = .nested name) (single : f.array = false) : Directs f .isObject
  | type {name : String} (kind : f.kind = .nested name) : Directs f (.type name)

theorem directs_of_mem {f : Field} {d : Directive} (h : d ∈ f.directives) : f.Directs d := by
  rcases List.mem_cons.1 h with rfl | htail
  · split
    · rename_i hrequired
      exact .notEmpty hrequired
    · rename_i hoptional
      exact .optional (Bool.eq_false_iff.2 hoptional)
  · cases hkind : f.kind with
    | native t =>
      rw [hkind] at htail
      cases t with
      | number =>
        rcases List.mem_cons.1 htail with rfl | hcheck
        · exact .transform hkind rfl
        · exact List.mem_singleton.1 hcheck ▸ .isNumber hkind
      | boolean =>
        rcases List.mem_cons.1 htail with rfl | hcheck
        · exact .transform hkind rfl
        · exact List.mem_singleton.1 hcheck ▸ .isBoolean hkind
      | string => exact List.mem_singleton.1 htail ▸ .isString hkind
    | enum name =>
      rw [hkind] at htail
      exact List.mem_singleton.1 htail ▸ .isEnum hkind
    | nested name =>
      rw [hkind] at htail
      simp only [nestedDirectives] at htail
      split at htail
      · rename_i harray
        simp only [List.mem_cons, List.not_mem_nil, or_false] at htail
        rcases htail with rfl | rfl | rfl
        · exact .isArray hkind harray
        · exact harray ▸ .validateNested hkind
        · exact .type hkind
      · rename_i hsingle
        rw [Bool.not_eq_true] at hsingle
        simp only [List.mem_cons, List.not_mem_nil, or_false] at htail
        rcases htail with rfl | rfl | rfl
        · exact hsingle ▸ .validateNested hkind
        · exact .isObject hkind hsingle
        · exact .type hkind

end Field

/-! ### Lines -/

namespace Field

/-- A member of a class, as it is written. -/
def classMember (f : Field) : String := "  " ++ f.key ++ (if f.required then "!: " else "?: ") ++ f.typeText

/-- A member of an interface, as it is written. -/
def interfaceMember (f : Field) : String := "  " ++ f.key ++ (if f.required then ": " else "?: ") ++ f.typeText ++ ";"

theorem text_member_classes (f : Field) : (Line.member .classes f).text = f.classMember := by
  unfold classMember
  cases hreq : f.required <;> simp [Line.text, Mode.member, memberLine, hreq, String.append_assoc]

private theorem text_member_interfaces (f : Field) : (Line.member .interfaces f).text = f.interfaceMember := by
  unfold interfaceMember
  cases hreq : f.required <;> simp [Line.text, Mode.member, memberLine, hreq, String.append_assoc]

end Field

/-- Lines of a class and of an interface that differ as the modes do.  The class has three lines of external imports and
a blank one after its own imports, and directives above each member; the headers differ in the keyword and the members
in their marks. -/
def Entity.SideBySide (e : Entity) (imports : List Import) (cls itf : List String) : Prop :=
  ∃ preamble : List String, preamble.length = 3 ∧
    cls = imports.map Import.line ++ [""] ++ (preamble ++ [""]) ++ ["export class " ++ e.name ++ " \x7b"] ++
      e.fields.flatMap (fun f => f.directives.map (fun d => "  " ++ d.text) ++ [f.classMember]) ++ ["\x7d"] ∧
    itf = imports.map Import.line ++ [""] ++ ["export interface " ++ e.name ++ " \x7b"] ++
      e.fields.map Field.interfaceMember ++ ["\x7d"]

namespace Mode

theorem text_fieldLines_classes (fs : List Field) : (fs.flatMap classes.fieldLines).map Line.text =
    fs.flatMap fun f => f.directives.map (fun d => "  " ++ d.text) ++ [f.classMember] := by
  induction fs with
  | nil => rfl
  | cons f fs ih =>
    rw [List.flatMap_cons, List.flatMap_cons, List.map_append, ih, ← f.text_member_classes]
    simp [fieldLines, directives, Line.text]

private theorem text_fieldLines_interfaces (fs : List Field) :
    (fs.flatMap interfaces.fieldLines).map Line.text = fs.map Field.interfaceMember := by
  induction fs with
  | nil => rfl
  | cons f fs ih =>
    rw [List.flatMap_cons, List.map_append, List.map_cons, ih, ← f.text_member_interfaces]
    rfl

/-- The lines of an entity in the two modes. -/
theorem sideBySide_lines (config : Config) (e : Entity) (imports : List Import) :
    e.SideBySide imports ((classes.lines (config.inMode .classes) e imports).map Line.text)
      ((interfaces.lines (config.inMode .interfaces) e imports).map Line.text) := by
  have himports : (imports.map Line.imported).map Line.text = imports.map Import.line := by
    rw [List.map_map]
    rfl
  have hpreamble : interfaces.preambleLines (config.inMode .interfaces) = [] := rfl
  refine ⟨classes.preamble (config.inMode .classes), rfl, ?_, ?_⟩
  · simp only [lines, List.map_append, himports, text_fieldLines_classes]
    rfl
  · simp only [lines, hpreamble, List.append_nil, List.map_append, himports, text_fieldLines_interfaces]
    rfl

end Mode

/-! ### Two compilations -/

namespace Config

variable {config : Config} {entities : List Entity} {tables : PathMap}

private theorem length_of_resolved {imports : List (List Import)} (h : config.resolved entities tables = .ok imports) :
    imports.length = entities.length := by
  unfold resolved at h
  cases hcheck : (config.checkNames entities).result with
  | error err => rw [hcheck] at h; cases h
  | ok u =>
    rw [hcheck] at h
    exact (mapM_eq_ok_iff.1 h).length_eq.symm

private theorem map_rendering_inMode (mode : Mode) (imports : List (List Import)) :
    ((config.inMode mode).rendering entities imports).map = (config.rendering entities imports).map := by
  have hentries : (List.zipWith (fun e is => e.render (config.inMode mode) is) entities imports).map
        (fun r => (r.name, r.logicalPath)) =
      (List.zipWith (fun e is => e.render config is) entities imports).map fun r => (r.name, r.logicalPath) := by
    rw [List.map_zipWith, List.map_zipWith]
    rfl
  show PathMap.ofList _ = PathMap.ofList _
  rw [hentries]

private theorem filenames_rendering_inMode (mode : Mode) (imports : List (List Import)) :
    ((config.inMode mode).rendering entities imports).files.map SourceFile.filename =
      (config.rendering entities imports).files.map SourceFile.filename := by
  show (List.map _ _).map _ = (List.map _ _).map _
  rw [List.map_map, List.map_map, List.map_zipWith, List.map_zipWith]
  rfl

private theorem file_rendering {imports : List (List Import)} {k : Nat} {e : Entity} {is : List Import}
    (he : entities[k]? = some e) (his : imports[k]? = some is) :
    (config.rendering entities imports).files[k]? =
      some ⟨config.filePath e.name, contentOfLines (config.mode.lines config e is)⟩ := by
  show ((List.zipWith _ entities imports).map Rendered.file)[k]? = _
  rw [List.getElem?_map, List.getElem?_zipWith, he, his]
  rfl

/-- The two modes are one compilation up to annotations: they stop at the same error, or both give the same map and the
same filenames, and the files of an entity have lines that differ as the modes do. -/
theorem compile_modes (config : Config) (entities : List Entity) (tables : PathMap) :
    (∃ err, (config.inMode .classes).compile entities tables = .error err ∧
      (config.inMode .interfaces).compile entities tables = .error err) ∨
    ∃ cls itf, (config.inMode .classes).compile entities tables = .ok cls ∧
      (config.inMode .interfaces).compile entities tables = .ok itf ∧ cls.map = itf.map ∧
      cls.files.map SourceFile.filename = itf.files.map SourceFile.filename ∧
      ∀ (k : Nat) (e : Entity), entities[k]? = some e →
        ∃ (imports : List Import) (classLines interfaceLines : List Line),
        classLines = Mode.classes.lines (config.inMode .classes) e imports ∧
        interfaceLines = Mode.interfaces.lines (config.inMode .interfaces) e imports ∧
        cls.files[k]? = some ⟨config.filePath e.name, contentOfLines classLines⟩ ∧
        itf.files[k]? = some ⟨config.filePath e.name, contentOfLines interfaceLines⟩ ∧
        e.SideBySide imports (classLines.map Line.text) (interfaceLines.map Line.text) := by
  have hcompile : ∀ mode, (config.inMode mode).compile entities tables =
      (config.resolved entities tables).map ((config.inMode mode).rendering entities) := by
    intro mode
    rw [compile_eq_resolved, resolved_inMode]
  rw [hcompile, hcompile]
  cases hresolved : config.resolved entities tables with
  | error err => exact .inl ⟨err, rfl, rfl⟩
  | ok imports =>
    refine .inr ⟨_, _, rfl, rfl, ?_, ?_, ?_⟩
    · rw [map_rendering_inMode, map_rendering_inMode]
    · rw [filenames_rendering_inMode, filenames_rendering_inMode]
    · intro k e he
      have hk : k < imports.length := by
        have hlt := (List.getElem?_eq_some_iff.1 he).1
        have hlen := length_of_resolved hresolved
        omega
      have his := List.getElem?_eq_getElem hk
      exact ⟨imports[k], _, _, rfl, rfl, file_rendering he his, file_rendering he his, Mode.sideBySide_lines config e _⟩

/-- Two entities that refer to each other, the first with a required list and an optional number. -/
theorem compile_modes_mutual :
    let config : Config := { outputDir := "dto" }
    let a : Entity := ⟨"A", [⟨"b", true, true, .schema "B"⟩, ⟨"n", false, false, .native .number⟩]⟩
    let entities : List Entity := [a, ⟨"B", [⟨"a", false, false, .schema "A"⟩]⟩]
    ∃ cls itf, (config.inMode .classes).compile entities .empty = .ok cls ∧
      (config.inMode .interfaces).compile entities .empty = .ok itf ∧ cls.map = itf.map ∧
      ∃ (imports : List Import) (classLines interfaceLines : List Line),
        cls.files[0]? = some ⟨config.filePath "A", contentOfLines classLines⟩ ∧
        itf.files[0]? = some ⟨config.filePath "A", contentOfLines interfaceLines⟩ ∧
        a.SideBySide imports (classLines.map Line.text) (interfaceLines.map Line.text) := by
  intro config a entities
  rcases compile_modes config entities .empty with ⟨err, herr, -⟩ | ⟨cls, itf, hcls, hitf, hmap, -, hlines⟩
  · cases herr
  · obtain ⟨imports, classLines, interfaceLines, -, -, hclass, hinterface, hside⟩ := hlines 0 a rfl
    exact ⟨cls, itf, hcls, hitf, hmap, imports, classLines, interfaceLines, hclass, hinterface, hside⟩

end Config

end SchemaDecl
