import SchemaDecl.Proofs.Outcome

/-!
# The order of events

A compilation logs what it does as it goes, line by line: for each entity in its order the imports of its fields and
then its counts, and a summary at the end.  Nothing is logged ahead of time, so a compilation that stops at a missing
reference leaves the same log as one that finds everything, cut just before the line of that field.

* Fields without a missing reference log their imports, whatever follows (`Scope.log_resolveFields_append`).
* Entities without one log their imports and counts, whatever follows (`Scope.log_renderAll_append`).
* At the first missing reference the log ends (`Scope.log_renderAll_of_firstMissing`).
-/

namespace SchemaDecl

/-- A list around the element in one of its places. -/
private theorem eq_take_append_cons {α : Type} {l : List α} {i : Nat} {a : α} (h : l[i]? = some a) :
    l = l.take i ++ a :: l.drop (i + 1) := by
  obtain ⟨hi, rfl⟩ := List.getElem?_eq_some_iff.1 h
  rw [← List.drop_eq_getElem_cons hi, List.take_append_drop]

private theorem flatMap_eq_take_append {α β : Type} {l : List α} {i : Nat} {a : α} (h : l[i]? = some a)
    (g : α → List β) :
    l.flatMap g = (l.take i).flatMap g ++ (g a ++ (l.drop (i + 1)).flatMap g) := by
  conv => lhs; rw [eq_take_append_cons h]
  rw [List.flatMap_append, List.flatMap_cons]

private theorem exists_getElem?_of_mem_take {α : Type} {l : List α} {n : Nat} {a : α} (h : a ∈ l.take n) :
    ∃ k < n, l[k]? = some a := by
  obtain ⟨k, hk, rfl⟩ := List.mem_take_iff_getElem.1 h
  exact ⟨k, by omega, List.getElem?_eq_getElem (by omega)⟩

/-! ### Logs -/

namespace Traced

variable {α β : Type}

/-- The lines that a computation logs: the text of each event, with its level. -/
def log (x : Traced α) : List (Level × String) := x.events.map fun e => (e.level, e.message)

@[simp] theorem log_pure (a : α) : (pure a : Traced α).log = [] := rfl

@[simp] theorem log_record (event : Event) : (record event).log = [(event.level, event.message)] := rfl

@[simp] theorem log_ofExcept (x : Except CompileError α) : (ofExcept x).log = [] := rfl

theorem log_bind_ok {x : Traced α} {a : α} (h : x.result = .ok a) (f : α → Traced β) :
    (x >>= f).log = x.log ++ (f a).log := by
  obtain ⟨events, result⟩ := x
  cases h
  exact List.map_append

theorem log_bind_error {x : Traced α} {err : CompileError} (h : x.result = .error err) (f : α → Traced β) :
    (x >>= f).log = x.log := by
  obtain ⟨events, result⟩ := x
  cases h
  rfl

@[simp] theorem log_bind_pure (x : Traced α) (g : α → β) : (x >>= fun a => pure (g a)).log = x.log := by
  cases h : x.result with
  | error err => exact log_bind_error h _
  | ok a => rw [log_bind_ok h, log_pure, List.append_nil]

end Traced

namespace Scope

variable {scope : Scope} (absent : String → String)

/-! ### What fields and entities log -/

/-- The import that a field asks for.  For a table or an enum that has no module, `absent` says where it would be. -/
def asked (scope : Scope) (absent : String → String) (f : Field) : Option Import :=
  match f.type with
  | .native _ => none
  | .schema name => some ⟨name, scope.config.logicalPath name⟩
  | .table name => some ⟨name, (scope.tables.get? name).getD (absent name)⟩
  | .enum name =>
    if scope.config.importEnums then some ⟨name, (scope.tables.get? name).getD (absent name)⟩ else none

/-- The line about the import of a field. -/
def importLine (entity field : String) (i : Import) : Level × String :=
  (.debug, entity ++ "." ++ field ++ " imports " ++ i.name ++ " from " ++ i.path)

/-- The log of a field: one line for the import it asks for. -/
def fieldLog (scope : Scope) (absent : String → String) (entity : String) (f : Field) : List (Level × String) :=
  (scope.asked absent f).toList.map (importLine entity f.key)

/-- The log of an entity: that of its fields, and one line with the number of fields and of imports. -/
def entityLog (scope : Scope) (absent : String → String) (e : Entity) : List (Level × String) :=
  e.fields.flatMap (scope.fieldLog absent e.name) ++
    [(.debug, "Compiled " ++ e.name ++ " (" ++ toString e.fields.length ++ " fields, " ++
      toString (e.fields.countP (·.needsImport scope.config)) ++ " imports)")]

private theorem asked_of_not_needsImport {f : Field} (h : f.needsImport scope.config = false) :
    scope.asked absent f = none := by
  obtain ⟨key, required, array, type⟩ := f
  cases type with
  | native t => rfl
  | enum name =>
    have hoff : scope.config.importEnums = false := h
    simp only [asked, hoff, Bool.false_eq_true, if_false]
  | schema name => cases h
  | table name => cases h

private theorem LeadsTo.asked {f : Field} {i : Import} (h : scope.LeadsTo f.type i) :
    scope.asked absent f = some i := by
  obtain ⟨key, required, array, type⟩ := f
  cases h with
  | schema present => rfl
  | table present => simp only [Scope.asked, present, Option.getD_some]
  | enum imported present => simp only [Scope.asked, present, imported, if_true, Option.getD_some]

private theorem Missing.exists_asked {f : Field} {kind : ReferenceKind} {name : String}
    (h : scope.Missing f.type kind name) :
    ∃ i, scope.asked absent f = some i ∧ i.name = name := by
  obtain ⟨key, required, array, type⟩ := f
  cases h with
  | schema missing => exact ⟨_, rfl, rfl⟩
  | table missing => exact ⟨_, rfl, rfl⟩
  | enum imported missing => exact ⟨_, if_pos imported, rfl⟩

/-- A field whose reference is not missing contributes the import it asks for. -/
private theorem resolveField_of_not_dangles (entity : String) {f : Field} (h : ¬ scope.Dangles f) :
    scope.resolveField entity f = .ok (scope.asked absent f) := by
  rcases scope.reference_cases f with hnone | ⟨i, hi⟩ | hmissing
  · rw [resolveField_of_not_needsImport hnone, asked_of_not_needsImport absent hnone]
  · rw [hi.resolveField, hi.asked]
  · exact absurd hmissing h

/-! ### Fields -/

private theorem log_resolveFields_cons_of_ok {entity : String} {f : Field} {o : Option Import}
    (h : scope.resolveField entity f = .ok o) (fs : List Field) :
    (scope.resolveFields entity (f :: fs)).log =
      o.toList.map (importLine entity f.key) ++ (scope.resolveFields entity fs).log := by
  have hresult : (Traced.ofExcept (scope.resolveField entity f)).result = .ok o := h
  rw [resolveFields, Traced.log_bind_ok hresult, Traced.log_ofExcept, List.nil_append]
  cases o with
  | none => rfl
  | some i =>
    show (Traced.record (.imported entity f.key i) >>= fun _ =>
      scope.resolveFields entity fs >>= fun is => pure (i :: is)).log = _
    rw [Traced.log_bind_ok (Traced.result_record _), Traced.log_bind_pure]
    rfl

private theorem log_resolveFields_cons_of_error {entity : String} {f : Field} {err : CompileError}
    (h : scope.resolveField entity f = .error err) (fs : List Field) :
    (scope.resolveFields entity (f :: fs)).log = [] := by
  have hresult : (Traced.ofExcept (scope.resolveField entity f)).result = .error err := h
  rw [resolveFields, Traced.log_bind_error hresult, Traced.log_ofExcept]

/-- Fields without a missing reference log their imports before anything is logged about those after them. -/
theorem log_resolveFields_append (entity : String) {fs : List Field} (h : ∀ f ∈ fs, ¬ scope.Dangles f)
    (more : List Field) :
    (scope.resolveFields entity (fs ++ more)).log =
      fs.flatMap (scope.fieldLog absent entity) ++ (scope.resolveFields entity more).log := by
  -- `more` stays as it is in the induction: the references in it may be missing
  induction fs with
  | nil => rfl
  | cons f fs ih =>
    have hf := resolveField_of_not_dangles absent entity (h f List.mem_cons_self)
    rw [List.cons_append, log_resolveFields_cons_of_ok hf, ih fun g hg => h g (List.mem_cons_of_mem f hg),
      List.flatMap_cons, List.append_assoc]
    rfl

/-! ### Entities -/

/-- An entity without a missing reference is resolved, to one import for each field that needs one. -/
private theorem exists_resolve_eq_ok {e : Entity} (h : ∀ f ∈ e.fields, ¬ scope.Dangles f) :
    ∃ imports, (scope.resolve e).result = .ok imports ∧
      imports.length = e.fields.countP (·.needsImport scope.config) := by
  obtain ⟨r, hr⟩ := Config.compileEntity_ok_iff.2 h
  obtain ⟨imports, hresolve, -, hleads⟩ := Config.compileEntity_eq_ok hr
  refine ⟨imports, hresolve, ?_⟩
  rw [← hleads.length_eq, List.countP_eq_length_filter]

/-- An entity without a missing reference logs its imports and then its counts. -/
theorem log_renderEntity {e : Entity} (h : ∀ f ∈ e.fields, ¬ scope.Dangles f) :
    (scope.renderEntity e).log = scope.entityLog absent e := by
  obtain ⟨imports, himports, hcount⟩ := exists_resolve_eq_ok h
  have hfields := log_resolveFields_append absent e.name h []
  rw [List.append_nil] at hfields
  have hresolve : (scope.resolve e).log = e.fields.flatMap (scope.fieldLog absent e.name) :=
    hfields.trans (List.append_nil _)
  rw [renderEntity, Traced.log_bind_ok himports, Traced.log_bind_pure, Traced.log_record, hresolve, hcount]
  rfl

/-- Entities without a missing reference log their imports and counts before anything is logged about those after
them. -/
theorem log_renderAll_append {es : List Entity} (h : ∀ e ∈ es, ∀ f ∈ e.fields, ¬ scope.Dangles f)
    (more : List Entity) :
    (scope.renderAll (es ++ more)).log = es.flatMap (scope.entityLog absent) ++ (scope.renderAll more).log := by
  induction es with
  | nil => rfl
  | cons e es ih =>
    have hresult : ∃ r, (scope.renderEntity e).result = .ok r := by
      rw [Config.renderEntity_result]
      exact Config.compileEntity_ok_iff.2 (h e List.mem_cons_self)
    obtain ⟨r, hr⟩ := hresult
    rw [List.cons_append, renderAll, Traced.log_bind_ok hr, Traced.log_bind_pure,
      ih fun e' he' => h e' (List.mem_cons_of_mem e he'), List.flatMap_cons, List.append_assoc,
      log_renderEntity absent (h e List.mem_cons_self)]

/-- An entity with a missing reference is not resolved. -/
private theorem exists_resolve_eq_error {e : Entity} {f : Field} (hmem : f ∈ e.fields) (hf : scope.Dangles f) :
    ∃ err, (scope.resolve e).result = .error err := by
  cases hresolve : (scope.resolve e).result with
  | error err => exact ⟨err, rfl⟩
  | ok imports =>
    have hcompiled :
        scope.config.compileEntity e scope.entities scope.tables = .ok (e.render scope.config imports) := by
      rw [Config.compileEntity]
      exact congrArg (· >>= fun is => Except.ok (e.render scope.config is)) hresolve
    exact absurd hf (Config.compileEntity_ok_iff.1 ⟨_, hcompiled⟩ f hmem)

/-- An entity with a missing reference logs the imports of the fields before it, and it is the last one to log. -/
private theorem log_renderAll_cons_of_dangles {e : Entity} {fs more : List Field} {f : Field}
    (hfields : e.fields = fs ++ f :: more) (hfs : ∀ g ∈ fs, ¬ scope.Dangles g) (hf : scope.Dangles f)
    (es : List Entity) :
    (scope.renderAll (e :: es)).log = fs.flatMap (scope.fieldLog absent e.name) := by
  have hmem : f ∈ e.fields := by
    rw [hfields]
    exact List.mem_append_right fs List.mem_cons_self
  obtain ⟨err, hresolve⟩ := exists_resolve_eq_error hmem hf
  have hresult : (scope.renderEntity e).result = .error err := by
    rw [renderEntity, Traced.result_bind, hresolve]
    rfl
  obtain ⟨kind, name, hmissing⟩ := hf
  rw [renderAll, Traced.log_bind_error hresult, renderEntity, Traced.log_bind_error hresolve, resolve, hfields,
    log_resolveFields_append absent e.name hfs, log_resolveFields_cons_of_error hmissing.resolveField, List.append_nil]

/-- The entities log everything up to the first missing reference and nothing after it. -/
theorem log_renderAll_of_firstMissing {i j : Nat} {err : CompileError} (h : scope.FirstMissing i j err) {e : Entity}
    (he : scope.entities[i]? = some e) :
    (scope.renderAll scope.entities).log = (scope.entities.take i).flatMap (scope.entityLog absent) ++
      (e.fields.take j).flatMap (scope.fieldLog absent e.name) := by
  obtain ⟨⟨e', f, kind, name, he', hf, hmissing, -⟩, hleast⟩ := h
  obtain rfl : e = e' := Option.some.inj (he.symm.trans he')
  have hbefore : ∀ d ∈ scope.entities.take i, ∀ g ∈ d.fields, ¬ scope.Dangles g := by
    intro d hd g hg hdangles
    obtain ⟨i', hi', hd'⟩ := exists_getElem?_of_mem_take hd
    obtain ⟨j', hj'⟩ := List.getElem?_of_mem hg
    exact hleast i' j' (.inl hi') ⟨d, g, hd', hj', hdangles⟩
  have hearlier : ∀ g ∈ e.fields.take j, ¬ scope.Dangles g := by
    intro g hg hdangles
    obtain ⟨j', hj', hg'⟩ := exists_getElem?_of_mem_take hg
    exact hleast i j' (.inr ⟨rfl, hj'⟩) ⟨e, g, he, hg', hdangles⟩
  -- what follows the entity in the list is arbitrary, since the run ends with it
  have hentities := log_renderAll_append absent hbefore (e :: scope.entities.drop (i + 1))
  rw [← eq_take_append_cons he] at hentities
  rw [hentities, log_renderAll_cons_of_dangles absent (eq_take_append_cons hf) hearlier ⟨kind, name, hmissing⟩]

/-- Without a missing reference the entities log everything. -/
theorem log_renderAll (h : ∀ i j, ¬ scope.DanglesAt i j) :
    (scope.renderAll scope.entities).log = scope.entities.flatMap (scope.entityLog absent) := by
  have hentities : ∀ e ∈ scope.entities, ∀ f ∈ e.fields, ¬ scope.Dangles f := by
    intro e he f hf hdangles
    obtain ⟨i, hi⟩ := List.getElem?_of_mem he
    obtain ⟨j, hj⟩ := List.getElem?_of_mem hf
    exact h i j ⟨e, f, hi, hj, hdangles⟩
  have hlog := log_renderAll_append absent hentities []
  rw [List.append_nil] at hlog
  exact hlog.trans (List.append_nil _)

end Scope

/-! ### The texts of events -/

/-- The summary of a compilation: classes have one shared file, interfaces none. -/
def Mode.summary : Mode → Nat → String
  | .classes, n => "Compiled " ++ toString n ++ " schemas as class declarations (1 support files)"
  | .interfaces, n => "Compiled " ++ toString n ++ " schemas as interface declarations (0 support files)"

namespace Event

private theorem message_repeated (n : String) :
    (repeated n).message = "duplicate schema definition: '" ++ n ++ "', keeping the later entry" := by
  have hquote : "'" ++ ", keeping the later entry" = "', keeping the later entry" := by decide +kernel
  rw [← hquote, ← String.append_assoc]
  rfl

private theorem message_finished (n : Nat) (mode : Mode) (config : Config) :
    (finished n mode (mode.support config).length).message = mode.summary n := by
  cases mode with
  | classes =>
    have htail : " schemas as class declarations (1 support files)" =
      " schemas as " ++ "class" ++ " declarations (" ++ toString 1 ++ " support files)" := by decide +kernel
    rw [Mode.summary, htail]
    simp only [← String.append_assoc]
    rfl
  | interfaces =>
    have htail : " schemas as interface declarations (0 support files)" =
      " schemas as " ++ "interface" ++ " declarations (" ++ toString 0 ++ " support files)" := by decide +kernel
    rw [Mode.summary, htail]
    simp only [← String.append_assoc]
    rfl

end Event

/-! ### Compilations -/

/-- The log of a list of names: a warning about the first one that repeats, if there is one. -/
inductive NameLog (names : List String) : List (Level × String) → Prop
  | distinct (nodup : names.Nodup) : NameLog names []
  | repeated {j : Nat} {n : String} (first : FirstRepeat names j n) :
    NameLog names [(.warn, "duplicate schema definition: '" ++ n ++ "', keeping the later entry")]

namespace Config

variable {config : Config} {entities : List Entity} {tables : PathMap}

/-- The log of a compilation that finds everything, after the log of its names. -/
def fullLog (config : Config) (entities : List Entity) (tables : PathMap) (absent : String → String) :
    List (Level × String) :=
  entities.flatMap (Scope.entityLog ⟨entities, tables, config⟩ absent) ++
    [(.info, config.mode.summary entities.length)]

/-- The log of a compilation that finds everything, around the line of field `j` of entity `i`. -/
private theorem exists_fullLog_eq (absent : String → String) {i j : Nat} {e : Entity} {f : Field} {asked : Import}
    (he : entities[i]? = some e) (hf : e.fields[j]? = some f)
    (hasked : Scope.asked ⟨entities, tables, config⟩ absent f = some asked) :
    ∃ after, config.fullLog entities tables absent =
      ((entities.take i).flatMap (Scope.entityLog ⟨entities, tables, config⟩ absent) ++
        (e.fields.take j).flatMap (Scope.fieldLog ⟨entities, tables, config⟩ absent e.name)) ++
      Scope.importLine e.name f.key asked :: after := by
  have hfield :
      Scope.fieldLog ⟨entities, tables, config⟩ absent e.name f = [Scope.importLine e.name f.key asked] := by
    rw [Scope.fieldLog, hasked]
    rfl
  rw [fullLog, flatMap_eq_take_append he, Scope.entityLog, flatMap_eq_take_append hf, hfield]
  simp only [List.append_assoc, List.cons_append]
  exact ⟨_, rfl⟩

/-- The names stop a compilation before anything is logged, or they are no obstacle and have their log. -/
theorem checkNames_cases (config : Config) (entities : List Entity) :
    (config.NamesClash entities ∧ ∃ n, config.checkNames entities = Traced.ofExcept (.error (.duplicate n))) ∨
    (¬ config.NamesClash entities ∧ (config.checkNames entities).result = .ok () ∧
      NameLog (entities.map Entity.name) (config.checkNames entities).log) := by
  unfold checkNames
  split
  · rename_i hnone
    have hnodup := firstDuplicate?_eq_none_iff.1 hnone
    exact .inr ⟨fun hclash => hclash.2 hnodup, rfl, .distinct hnodup⟩
  · rename_i n hn
    obtain ⟨j, hj⟩ := firstRepeat_of_firstDuplicate? hn
    cases hallowed : config.allowDuplicateNames with
    | true =>
      refine .inr ⟨fun hclash => absurd (hallowed.symm.trans hclash.1) (by decide), rfl, ?_⟩
      rw [if_pos rfl, Traced.log_record, Event.message_repeated]
      exact .repeated hj
    | false =>
      refine .inl ⟨⟨hallowed, fun hnodup => ?_⟩, n, rfl⟩
      rw [firstDuplicate?_eq_none_iff.2 hnodup] at hn
      cases hn

private theorem log_checkNames (h : ¬ config.NamesClash entities) :
    (config.checkNames entities).result = .ok () ∧
      NameLog (entities.map Entity.name) (config.checkNames entities).log :=
  ((checkNames_cases config entities).resolve_left fun hclash => h hclash.1).2

/-- Where a repeated name stops a compilation, nothing is logged. -/
theorem log_trace_of_clash (h : config.NamesClash entities) : (config.trace entities tables).log = [] := by
  obtain ⟨-, n, hn⟩ := (checkNames_cases config entities).resolve_right fun hnames => hnames.1 h
  rw [trace, hn, Traced.log_bind_error rfl, Traced.log_ofExcept]

/-- Where the names are no obstacle, the log begins with them, and what the entities log follows; a summary ends it
exactly if the entities compile. -/
theorem log_trace_of_names (h : ¬ config.NamesClash entities) :
    (∀ err, config.compile entities tables = .error err → (config.trace entities tables).log =
      (config.checkNames entities).log ++ (Scope.renderAll ⟨entities, tables, config⟩ entities).log) ∧
    ∀ out, config.compile entities tables = .ok out → (config.trace entities tables).log =
      (config.checkNames entities).log ++ ((Scope.renderAll ⟨entities, tables, config⟩ entities).log ++
        [(.info, config.mode.summary entities.length)]) := by
  have hcheck := (log_checkNames h).1
  have hcompile := compile_eq config entities tables
  rw [hcheck, ← renderAll_result] at hcompile
  rw [trace, Traced.log_bind_ok hcheck]
  cases hrs : (Scope.renderAll ⟨entities, tables, config⟩ entities).result with
  | error err =>
    rw [hrs] at hcompile
    refine ⟨fun err' _ => by rw [Traced.log_bind_error hrs], fun out hout => ?_⟩
    rw [hcompile] at hout
    cases hout
  | ok rs =>
    rw [hrs] at hcompile
    refine ⟨fun err herr => ?_, fun out _ => ?_⟩
    · rw [hcompile] at herr
      cases herr
    · have hfiles : (config.assemble rs).files.length = entities.length := by
        rw [renderAll_result] at hrs
        rw [(mapM_eq_ok_iff.1 hrs).length_eq]
        exact List.length_map _
      have hsummary : (Event.finished (config.assemble rs).files.length config.mode
          (config.assemble rs).support.length).message = config.mode.summary entities.length := by
        rw [hfiles]
        exact Event.message_finished entities.length config.mode config
      rw [Traced.log_bind_ok hrs, Traced.log_bind_pure, Traced.log_record, hsummary]
      rfl

/-- An error other than a repeated name is about the first missing reference. -/
private theorem exists_firstMissing (h : ¬ config.NamesClash entities) {err : CompileError}
    (herr : config.compile entities tables = .error err) :
    ∃ i j, Scope.FirstMissing ⟨entities, tables, config⟩ i j err := by
  by_cases hdangles : ∃ i j, Scope.DanglesAt ⟨entities, tables, config⟩ i j
  · obtain ⟨i, j, hij⟩ := hdangles
    obtain ⟨i', j', err', hfirst, herr'⟩ := compile_of_dangling h hij
    obtain rfl : err = err' := Except.error.inj (herr.symm.trans herr')
    exact ⟨i', j', hfirst⟩
  · obtain ⟨out, hout⟩ := compile_ok_iff.2 ⟨h, hdangles⟩
    rw [herr] at hout
    cases hout

/-- The log of a compilation is the order in which it goes.  Where a repeated name stops it, nothing is logged.  Where
it succeeds, the log is that of the names, those of the entities in their order, and a summary.  Where a reference is
missing, it is the same log, cut just before the line of the first field with such a reference: what follows in the
whole log is the import that this field would have had, wherever `absent` puts the modules that are not there. -/
theorem trace_log (config : Config) (entities : List Entity) (tables : PathMap) (absent : String → String) :
    (∀ n, config.compile entities tables = .error (.duplicate n) → (config.trace entities tables).log = []) ∧
    (∀ out, config.compile entities tables = .ok out →
      ∃ names, NameLog (entities.map Entity.name) names ∧
        (config.trace entities tables).log = names ++ config.fullLog entities tables absent) ∧
    ∀ kind entity field name, config.compile entities tables = .error (.unresolved kind entity field name) →
      ∃ names i j e f path after, NameLog (entities.map Entity.name) names ∧
        Scope.FirstMissing ⟨entities, tables, config⟩ i j (.unresolved kind entity field name) ∧
        entities[i]? = some e ∧ e.fields[j]? = some f ∧
        (config.trace entities tables).log = names ++
          ((entities.take i).flatMap (Scope.entityLog ⟨entities, tables, config⟩ absent) ++
            (e.fields.take j).flatMap (Scope.fieldLog ⟨entities, tables, config⟩ absent e.name)) ∧
        names ++ config.fullLog entities tables absent =
          (config.trace entities tables).log ++
            (.debug, entity ++ "." ++ field ++ " imports " ++ name ++ " from " ++ path) :: after := by
  refine ⟨fun n hn => ?_, fun out hout => ?_, fun kind entity field name herr => ?_⟩
  · by_cases hclash : config.NamesClash entities
    · exact log_trace_of_clash hclash
    · obtain ⟨i, j, hfirst⟩ := exists_firstMissing hclash hn
      obtain ⟨e, f, kind, name, -, -, -, hkind⟩ := hfirst.here
      cases hkind
  · obtain ⟨hclash, hdangles⟩ := compile_ok_iff.1 ⟨out, hout⟩
    refine ⟨_, (log_checkNames hclash).2, ?_⟩
    rw [(log_trace_of_names hclash).2 out hout,
      Scope.log_renderAll absent fun i j hij => hdangles ⟨i, j, hij⟩]
    rfl
  · have hclash : ¬ config.NamesClash entities := by
      intro h
      obtain ⟨j, n, -, hn⟩ := @compile_of_clash config entities tables h
      rw [herr] at hn
      cases hn
    obtain ⟨i, j, hfirst⟩ := exists_firstMissing hclash herr
    obtain ⟨e, f, kind', name', he, hf, hmissing, hsame⟩ := hfirst.here
    cases hsame
    -- the field with the missing reference asks for an import, so the whole log goes on with a line of its own
    obtain ⟨⟨_, path⟩, hasked, rfl⟩ := hmissing.exists_asked absent
    obtain ⟨after, hafter⟩ := exists_fullLog_eq absent he hf hasked
    have hlog := (log_trace_of_names hclash).1 _ herr
    rw [Scope.log_renderAll_of_firstMissing absent hfirst he] at hlog
    refine ⟨_, i, j, e, f, path, after, (log_checkNames hclash).2, hfirst, he, hf, hlog, ?_⟩
    rw [hlog, hafter]
    exact (List.append_assoc _ _ _).symm

/-- A name that may repeat, an enum that is not imported, and a table without a module in the second entity: the log
ends before it, and the third entity is not reached. -/
theorem trace_log_repeated_dangling :
    let config : Config := { allowDuplicateNames := true }
    let entities : List Entity :=
      [⟨"A", [⟨"r", false, false, .enum "R"⟩, ⟨"b", true, false, .schema "B"⟩]⟩,
        ⟨"B", [⟨"a", false, true, .schema "A"⟩, ⟨"t", false, false, .table "T"⟩]⟩, ⟨"A", []⟩]
    (config.trace entities .empty).log =
        [(.warn, "duplicate schema definition: 'A', keeping the later entry"),
          (.debug, "A.b imports B from ./ts-schema/B"), (.debug, "Compiled A (2 fields, 1 imports)"),
          (.debug, "B.a imports A from ./ts-schema/A")] ∧
      ∃ names path after, NameLog ["A", "B", "A"] names ∧
        names ++ config.fullLog entities .empty (fun _ => "./elsewhere") =
          (config.trace entities .empty).log ++
            (.debug, "B" ++ "." ++ "t" ++ " imports " ++ "T" ++ " from " ++ path) :: after := by
  intro config entities
  have herr : config.compile entities .empty = .error (.unresolved .table "B" "t" "T") := by rfl
  obtain ⟨names, i, j, e, f, path, after, hnames, -, -, -, -, hcut⟩ :=
    (trace_log config entities .empty fun _ => "./elsewhere").2.2 _ _ _ _ herr
  exact ⟨by decide +kernel, names, path, after, hnames, hcut⟩

end Config

end SchemaDecl
