import Mathlib.Algebra.BigOperators.Group.List.Basic
import Mathlib.Algebra.Ring.Int.Defs
import SchemaDecl.Proofs.Closure
import SchemaDecl.Proofs.Segments
import SchemaDecl.Writer

/-!
# Where specifiers lead

A specifier is read from the folder of the file that holds it.  Going along a path, a name goes one level down and `..`
one level up, so the number of levels a path gains depends on its segments alone (`Path.sum_rise_place`).  The specifier
of a path is the path after one step up, whatever the file; so it leads to the path from a file exactly one level below
the root, and from no other file (`Path.reach_specifier_iff`).
-/

namespace SchemaDecl

namespace Path

/-! ### Walking along a path -/

/-- One segment further.  It stays, goes up, or goes down; the names so far are reversed, and steps up that leave the
start are kept. -/
def walk (names : List String) (segment : String) : List String :=
  if isHere segment then names
  else if segment = ".." then
    match names with
    | [] => [".."]
    | name :: rest => if name = ".." then ".." :: name :: rest else rest
  else segment :: names

/-- Where segments lead, read from left to right. -/
def place (segments : List String) : List String := (segments.foldl walk []).reverse

/-- Where a specifier in a file leads: it starts in the folder of the file. -/
def reach (file specifier : String) : List String := place ((above file).reverse ++ segments specifier)

/-- How many levels a segment goes down. -/
def rise (segment : String) : Int := if isHere segment then 0 else if segment = ".." then -1 else 1

private theorem isHere_up : isHere ".." = false := by decide

private theorem rise_up : rise ".." = -1 := by decide

/-- A step keeps the names free of segments that stay, and counts as its segment does. -/
private theorem walk_step {names : List String} (h : ∀ n ∈ names, isHere n = false) (s : String) :
    (∀ n ∈ walk names s, isHere n = false) ∧ ((walk names s).map rise).sum = rise s + (names.map rise).sum := by
  unfold walk
  split
  · rename_i hs
    exact ⟨h, by simp [rise, hs]⟩
  · rename_i hs
    split
    · rename_i hup
      subst hup
      -- a step up takes a name off, or is kept where there is none to take
      split
      · exact ⟨by simp [isHere_up], by simp⟩
      · rename_i name rest
        have hname := h name List.mem_cons_self
        have hrest : ∀ n ∈ rest, isHere n = false := fun n hn => h n (List.mem_cons_of_mem name hn)
        split
        · rename_i heq
          subst heq
          refine ⟨?_, by simp⟩
          intro n hn
          rcases List.mem_cons.1 hn with rfl | hn
          · exact isHere_up
          · exact h n hn
        · rename_i hne
          refine ⟨hrest, ?_⟩
          have hdown : rise name = 1 := by simp [rise, hname, hne]
          rw [List.map_cons, List.sum_cons, hdown, rise_up]
          omega
    · refine ⟨?_, by simp⟩
      intro n hn
      rcases List.mem_cons.1 hn with rfl | hn
      · exact Bool.eq_false_iff.2 hs
      · exact h n hn

private theorem walk_run {segments names : List String} (h : ∀ n ∈ names, isHere n = false) :
    ((segments.foldl walk names).map rise).sum = (segments.map rise).sum + (names.map rise).sum := by
  induction segments generalizing names with
  | nil => simp
  | cons s segments ih =>
    obtain ⟨hclean, hsum⟩ := walk_step h s
    rw [List.foldl_cons, ih hclean, hsum, List.map_cons, List.sum_cons]
    omega

/-- The levels that a path gains are those of its segments. -/
theorem sum_rise_place (segments : List String) : ((place segments).map rise).sum = (segments.map rise).sum := by
  rw [place, List.map_reverse, List.sum_reverse, walk_run (by simp)]
  simp

private theorem foldl_walk_of_down {segments : List String} (h : ".." ∉ segments) (names : List String) :
    segments.foldl walk names = (segments.filter (!isHere ·)).reverse ++ names := by
  induction segments generalizing names with
  | nil => rfl
  | cons s segments ih =>
    rw [List.mem_cons, not_or] at h
    rw [List.foldl_cons, ih h.2]
    by_cases hs : isHere s = true
    · rw [List.filter_cons_of_neg (by simp [hs])]
      simp [walk, hs]
    · rw [List.filter_cons_of_pos (by simp [hs])]
      simp [walk, hs, Ne.symm h.1]

private theorem sum_rise_of_down {segments : List String} (h : ".." ∉ segments) :
    (segments.map rise).sum = ((segments.filter (!isHere ·)).length : Int) := by
  induction segments with
  | nil => rfl
  | cons s segments ih =>
    rw [List.mem_cons, not_or] at h
    rw [List.map_cons, List.sum_cons, ih h.2]
    by_cases hs : isHere s = true
    · rw [List.filter_cons_of_neg (by simp [hs])]
      simp [rise, hs]
    · have hdown : rise s = 1 := by simp [rise, hs, Ne.symm h.1]
      rw [List.filter_cons_of_pos (by simp [hs]), List.length_cons, hdown]
      omega

/-- Down some folders and up one is no detour exactly when there was one folder. -/
theorem place_up_iff {folders : List String} (h : ".." ∉ folders) (path : List String) :
    place (folders ++ ".." :: path) = place path ↔ (folders.filter (!isHere ·)).length = 1 := by
  constructor
  · -- the two places have the same level, so the folders make up for the step up
    intro heq
    have hsum := congrArg (fun names => (names.map rise).sum) heq
    simp only [sum_rise_place, List.map_append, List.map_cons, List.sum_append, List.sum_cons, sum_rise_of_down h,
      rise_up] at hsum
    omega
  · intro hlen
    obtain ⟨name, hname⟩ := List.length_eq_one_iff.1 hlen
    have hne : name ≠ ".." := by
      rintro rfl
      have hmem : ".." ∈ folders.filter (!isHere ·) := by rw [hname]; exact List.mem_cons_self
      exact h (List.mem_of_mem_filter hmem)
    have hback : walk [name] ".." = [] := by simp [walk, isHere_up, hne]
    rw [place, List.foldl_append, foldl_walk_of_down h, hname, List.foldl_cons, List.append_nil, List.reverse_singleton,
      hback, place]

/-! ### Segments -/

theorem names_append_slash (p q : String) : names (p ++ "/" ++ q) = names p ++ names q := by
  rw [names, segments_append_slash, List.filter_append]
  rfl

/-- The folders of a file are all its names but the last. -/
private theorem length_names_above (path : String) :
    ((above path).filter (!isHere ·)).length = (names path).length - 1 := by
  have hnames : (names path).length = ((segments path).reverse.filter (!isHere ·)).length := by
    rw [names, List.filter_reverse, List.length_reverse]
  rw [hnames, above]
  generalize (segments path).reverse = l
  induction l with
  | nil => rfl
  | cons s l ih =>
    by_cases hs : isHere s = true
    · rw [List.dropWhile_cons_of_pos hs, List.filter_cons_of_neg (by simp [hs])]
      exact ih
    · rw [List.dropWhile_cons_of_neg hs, List.filter_cons_of_pos (by simp [hs])]
      simp

private theorem above_subset_segments (path : String) : above path ⊆ segments path := by
  intro s hs
  have hdrop := List.mem_of_mem_drop hs
  have hmem := (List.dropWhile_sublist isHere).subset hdrop
  exact List.mem_reverse.1 hmem

private theorem dropWhile_slash_of_cons {α : Type} {g : List Char → α} (h : ∀ cs, g ('/' :: cs) = g cs)
    (cs : List Char) : g (cs.dropWhile (· == '/')) = g cs := by
  induction cs with
  | nil => rfl
  | cons c cs ih =>
    by_cases hc : c = '/'
    · subst hc
      rw [List.dropWhile_cons_of_pos (by simp), ih, h]
    · rw [List.dropWhile_cons_of_neg (by simp [hc])]

/-- Slashes at the ends of a path do not change its names. -/
private theorem names_trimBoth (path : String) : names (trimBoth '/' path) = names path := by
  have hempty : names "" = [] := by decide
  have hfront : ∀ cs, names (String.ofList ('/' :: cs)) = names (String.ofList cs) := by
    intro cs
    have htext : String.ofList ('/' :: cs) = "" ++ "/" ++ String.ofList cs := by
      rw [← String.toList_inj]
      simp
    rw [htext, names_append_slash, hempty, List.nil_append]
  have hback : ∀ cs, names (String.ofList ('/' :: cs).reverse) = names (String.ofList cs.reverse) := by
    intro cs
    have htext : String.ofList ('/' :: cs).reverse = String.ofList cs.reverse ++ "/" ++ "" := by
      rw [← String.toList_inj]
      simp
    rw [htext, names_append_slash, hempty, List.append_nil]
  -- the end is trimmed first, as the front of the reversed text
  rw [trimBoth, dropWhile_slash_of_cons (g := fun cs => names (String.ofList cs.reverse)) hback, List.reverse_reverse,
    dropWhile_slash_of_cons (g := fun cs => names (String.ofList cs)) hfront, String.ofList_toList]

private theorem up_not_mem_of_targetPath {root filename : String} (h : (targetPath root filename).isOk = true) :
    ".." ∉ segments filename := by
  intro hmem
  have hstrip : ".." ∈ segments (stripHere filename) := by
    obtain ⟨count, hcount⟩ := segments_stripHere filename
    rw [hcount, List.mem_append] at hmem
    exact hmem.resolve_left (by simp [List.mem_replicate])
  rw [targetPath, if_pos (.inr (.inr hstrip))] at h
  cases h

/-! ### Specifiers of generated modules -/

theorem logicalPath_eq (config : Config) (name : String) :
    config.logicalPath name = "." ++ "/" ++ (trimBoth '/' config.outputDir ++ "/" ++ name) := by
  have hstart : "./" = "." ++ "/" := by decide
  simp only [Config.logicalPath, hstart, String.append_assoc]

private theorem specifier_here (p : String) : Import.specifier ("." ++ "/" ++ p) = ".." ++ "/" ++ p := by
  have hstart : startsWith ("." ++ "/" ++ p) "./" = true := by
    have hafter : after? "./".toList ("." ++ "/" ++ p).toList = some p.toList := after?_eq_some_iff.2 (by simp)
    rw [startsWith, hafter]
    rfl
  have hup : ".." = "." ++ "." := by decide
  rw [Import.specifier, if_pos hstart, hup]
  simp only [String.append_assoc]

/-- From a file without a step up in its name, the specifier of a generated module leads to the module exactly when the
file has two names, its folder and its own. -/
theorem reach_specifier_iff {file : String} (h : ".." ∉ segments file) (config : Config) (name : String) :
    reach file (Import.specifier (config.logicalPath name)) = place (segments (config.logicalPath name)) ↔
      (names file).length = 2 := by
  have hfolders : ".." ∉ (above file).reverse := fun hmem =>
    h (above_subset_segments file (List.mem_reverse.1 hmem))
  have hhere : segments "." = ["."] := by decide
  have hup : segments ".." = [".."] := by decide
  have hskip : ∀ path, place ("." :: path) = place path := fun path => rfl
  rw [logicalPath_eq, specifier_here]
  generalize trimBoth '/' config.outputDir ++ "/" ++ name = path
  rw [reach, segments_append_slash, segments_append_slash, hhere, hup, List.singleton_append, List.singleton_append,
    hskip, place_up_iff hfolders, List.filter_reverse, List.length_reverse, length_names_above]
  omega

end Path

namespace Config

/-- The names of the file of an entity are those of the folder and those of the entity with the extension. -/
theorem names_filePath (config : Config) (name : String) :
    Path.names (config.filePath name) = Path.names config.outputDir ++ Path.names (config.withExtension name) := by
  have hhere : Path.names "." = [] := by decide
  rw [filePath, Path.logicalPath_eq, withExtension_append, withExtension_append, Path.names_append_slash,
    Path.names_append_slash, Path.names_trimBoth, hhere, List.nil_append]

/-- The imports in the file of an entity lead to the modules of other entities and of the helpers exactly when the
folder of generated files and the entity with the extension have two names together: then the file is in one folder. -/
theorem specifiers_reach_iff {config : Config} {entities : List Entity} {tables : PathMap} {out : Output}
    (h : config.compile entities tables = .ok out) {root : String}
    (haccepted : ∀ file ∈ out.files, (targetPath root file.filename).isOk = true) {e : Entity}
    (he : e ∈ entities) :
    (∀ f ∈ e.fields, ∀ name, f.type = .schema name →
      (Path.reach (config.filePath e.name) (Import.specifier (config.logicalPath name)) =
          Path.place (Path.segments (config.logicalPath name)) ↔
        (Path.names config.outputDir).length + (Path.names (config.withExtension e.name)).length = 2)) ∧
    (config.mode = .classes →
      (Path.reach (config.filePath e.name) (Import.specifier config.helperPath) =
          Path.place (Path.segments config.helperPath) ↔
        (Path.names config.outputDir).length + (Path.names (config.withExtension e.name)).length = 2)) := by
  obtain ⟨k, hk⟩ := List.getElem?_of_mem he
  obtain ⟨imports, -, hfile, -⟩ := file_of_compile h hk
  have hok := haccepted _ (List.mem_of_getElem? hfile)
  rw [show (e.render config imports).file.filename = config.filePath e.name from rfl] at hok
  have hup := Path.up_not_mem_of_targetPath hok
  rw [← List.length_append, ← names_filePath, helperPath]
  exact ⟨fun f _ name _ => Path.reach_specifier_iff hup config name, fun _ => Path.reach_specifier_iff hup config _⟩

/-- With the default folder the file of an entity is in one folder, and its imports lead where they should. -/
theorem specifiers_reach_default :
    let order : Entity := ⟨"Order", [⟨"buyer", false, false, .schema "User"⟩]⟩
    let config : Config := {}
    ∃ out, config.compile [order, ⟨"User", []⟩] .empty = .ok out ∧
      (∀ file ∈ out.files, (targetPath "out" file.filename).isOk = true) ∧
      Path.reach (config.filePath "Order") (Import.specifier (config.logicalPath "User")) =
        Path.place (Path.segments (config.logicalPath "User")) ∧
      Path.reach (config.filePath "Order") (Import.specifier config.helperPath) =
        Path.place (Path.segments config.helperPath) := by
  intro order config
  have hcompiled : ∃ out, config.compile [order, ⟨"User", []⟩] .empty = .ok out ∧
      ∀ file ∈ out.files, (targetPath "out" file.filename).isOk = true := ⟨_, rfl, by decide⟩
  obtain ⟨out, h, haccepted⟩ := hcompiled
  have hiff := specifiers_reach_iff h haccepted (e := order) List.mem_cons_self
  exact ⟨out, h, haccepted, (hiff.1 _ List.mem_cons_self "User" rfl).2 (by decide), (hiff.2 rfl).2 (by decide)⟩

/-- With a folder in a folder they do not. -/
theorem specifiers_miss_nested :
    let order : Entity := ⟨"Order", [⟨"buyer", false, false, .schema "User"⟩]⟩
    let config : Config := { mode := .interfaces, outputDir := "types/dto" }
    ∃ out, config.compile [order, ⟨"User", []⟩] .empty = .ok out ∧
      (∀ file ∈ out.allFiles, (targetPath "out" file.filename).isOk = true) ∧
      Path.reach (config.filePath "Order") (Import.specifier (config.logicalPath "User")) ≠
        Path.place (Path.segments (config.logicalPath "User")) :=
  ⟨_, rfl, by decide, by decide⟩

end Config

end SchemaDecl
