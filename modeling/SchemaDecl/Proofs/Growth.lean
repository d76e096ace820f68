import Mathlib.Data.List.TakeWhile
import Mathlib.Order.Defs.Unbundled
import SchemaDecl.FileTree.Script
import SchemaDecl.Proofs.Segments

/-!
# Growing file trees

File operations only add to a tree: a folder stays a folder and a file stays a file (`FileTree.Grows`).  So a path that
leads somewhere keeps leading there (`FileTree.Leads.of_grows`).  The two operations that change a tree put one node at
the location that their path leads to afterwards (`FileTree.makeFolder_eq_ok`, `FileTree.writeText_eq_ok`).  What holds
from before to after each of them holds from before to after a script that is made of them (`Script.Ensures`).
-/

namespace SchemaDecl

namespace FileTree

variable {t t' t'' : FileTree}

@[simp] theorem get?_nil (t : FileTree) : t.get? [] = some .folder := rfl

/-! ### Where segments lead -/

/-- Segments lead from a location to another one.  The locations that are left are folders, and those that are reached
by a name are there. -/
inductive Leads (t : FileTree) : Location → List String → Location → Prop
  | nil (l : Location) : Leads t l [] l
  | stay {l l' : Location} {s : String} {rest : List String} (folder : t.get? l = some .folder)
    (here : Path.isHere s = true) (next : Leads t l rest l') : Leads t l (s :: rest) l'
  | up {l l' : Location} {rest : List String} (folder : t.get? l = some .folder) (next : Leads t l.dropLast rest l') :
    Leads t l (".." :: rest) l'
  | down {l l' : Location} {s : String} {rest : List String} (folder : t.get? l = some .folder)
    (away : Path.isHere s = false) (notUp : s ≠ "..") (size : s.utf8ByteSize ≤ maxName)
    (present : t.get? (l ++ [s]) ≠ none) (next : Leads t (l ++ [s]) rest l') : Leads t l (s :: rest) l'

theorem requireFolder_eq_ok_iff {l : Location} : t.requireFolder l = .ok () ↔ t.get? l = some .folder := by
  unfold requireFolder
  split <;> simp_all

private theorem walk_cons_of_folder {l : Location} (h : t.get? l = some .folder) (s : String) (rest : List String) :
    t.walk l (s :: rest) =
      if Path.isHere s then t.walk l rest
      else if s = ".." then t.walk l.dropLast rest
      else if maxName < s.utf8ByteSize then .error .nameTooLong
      else if (t.get? (l ++ [s])).isNone then .error .notFound
      else t.walk (l ++ [s]) rest := by
  rw [walk, requireFolder_eq_ok_iff.2 h]
  rfl

private theorem folder_of_walk_cons {l l' : Location} {s : String} {rest : List String}
    (h : t.walk l (s :: rest) = .ok l') :
    t.get? l = some .folder := by
  cases hfolder : t.requireFolder l with
  | error e => rw [walk, hfolder] at h; cases h
  | ok u => exact requireFolder_eq_ok_iff.1 hfolder

theorem leads_of_walk {l l' : Location} {segments : List String} (h : t.walk l segments = .ok l') :
    t.Leads l segments l' := by
  induction segments generalizing l with
  | nil =>
    cases h
    exact .nil _
  | cons s rest ih =>
    have folder := folder_of_walk_cons h
    rw [walk_cons_of_folder folder] at h
    split at h
    · rename_i here
      exact .stay folder here (ih h)
    · rename_i away
      split at h
      · rename_i hup
        subst hup
        exact .up folder (ih h)
      · rename_i notUp
        split at h
        · cases h
        · rename_i size
          split at h
          · cases h
          · rename_i present
            rw [Option.isNone_iff_eq_none] at present
            exact .down folder (Bool.eq_false_iff.2 away) notUp (by omega) present (ih h)

theorem Leads.walk {l l' : Location} {segments : List String} (h : t.Leads l segments l') :
    t.walk l segments = .ok l' := by
  induction h with
  | nil l => rfl
  | stay folder here next ih => rw [walk_cons_of_folder folder, if_pos here, ih]
  | up folder next ih =>
    rw [walk_cons_of_folder folder, if_neg (by decide), if_pos rfl, ih]
  | @down l l' s rest folder away notUp size present next ih =>
    have hpresent : ¬ (t.get? (l ++ [s])).isNone = true := fun h => present (Option.isNone_iff_eq_none.1 h)
    rw [walk_cons_of_folder folder, if_neg (by simp [away]), if_neg notUp, if_neg (by omega), if_neg hpresent, ih]

theorem Leads.append {l l' l'' : Location} {first second : List String} (h : t.Leads l first l')
    (h' : t.Leads l' second l'') : t.Leads l (first ++ second) l'' := by
  induction h with
  | nil l => exact h'
  | stay folder here next ih => exact .stay folder here (ih h')
  | up folder next ih => exact .up folder (ih h')
  | down folder away notUp size present next ih => exact .down folder away notUp size present (ih h')

theorem Leads.exists_of_append {l l'' : Location} {first second : List String} (h : t.Leads l (first ++ second) l'') :
    ∃ l', t.Leads l first l' ∧ t.Leads l' second l'' := by
  induction first generalizing l with
  | nil => exact ⟨l, .nil l, h⟩
  | cons s first ih =>
    cases h with
    | stay folder here next =>
      obtain ⟨l', h₁, h₂⟩ := ih next
      exact ⟨l', .stay folder here h₁, h₂⟩
    | up folder next =>
      obtain ⟨l', h₁, h₂⟩ := ih next
      exact ⟨l', .up folder h₁, h₂⟩
    | down folder away notUp size present next =>
      obtain ⟨l', h₁, h₂⟩ := ih next
      exact ⟨l', .down folder away notUp size present h₁, h₂⟩

theorem Leads.folder {l l' : Location} {segments : List String} (h : t.Leads l segments l') (hne : segments ≠ []) :
    t.get? l = some .folder := by
  cases h with
  | nil => exact absurd rfl hne
  | stay folder => exact folder
  | up folder => exact folder
  | down folder => exact folder

/-- Without a step up, segments lead to the names among them, below where they start. -/
theorem Leads.eq_append {l l' : Location} {segments : List String} (h : t.Leads l segments l') (hup : ".." ∉ segments) :
    l' = l ++ segments.filter (!Path.isHere ·) := by
  induction h with
  | nil l => simp
  | stay folder here next ih =>
    rw [List.mem_cons, not_or] at hup
    rw [ih hup.2, List.filter_cons_of_neg (by simp [here])]
  | up folder next ih => exact absurd List.mem_cons_self hup
  | down folder away notUp size present next ih =>
    rw [List.mem_cons, not_or] at hup
    rw [ih hup.2, List.filter_cons_of_pos (by simp [away]), List.append_assoc, List.singleton_append]

/-- Segments that are empty stay where they are. -/
theorem leads_of_empty {l : Location} (h : t.get? l = some .folder) {segments : List String}
    (hempty : ∀ s ∈ segments, s = "") : t.Leads l segments l := by
  induction segments with
  | nil => exact .nil l
  | cons s rest ih =>
    have hs : s = "" := hempty s List.mem_cons_self
    have hrest := ih fun r hr => hempty r (List.mem_cons_of_mem s hr)
    exact .stay h (by rw [hs]; rfl) hrest

/-! ### Growth -/

/-- A tree has become another one in which every folder is a folder still, and every file a file, of the same or of
another content. -/
structure Grows (t t' : FileTree) : Prop where
  home : t'.home = t.home
  folder : ∀ l, t.get? l = some .folder → t'.get? l = some .folder
  file : ∀ l c, t.get? l = some (.file c) → ∃ c', t'.get? l = some (.file c')

theorem Grows.refl (t : FileTree) : t.Grows t := ⟨rfl, fun _ h => h, fun _ c h => ⟨c, h⟩⟩

theorem Grows.trans (h : t.Grows t') (h' : t'.Grows t'') : t.Grows t'' where
  home := h'.home.trans h.home
  folder l hl := h'.folder l (h.folder l hl)
  file l c hl := by
    obtain ⟨c', hc'⟩ := h.file l c hl
    exact h'.file l c' hc'

theorem Grows.none_of_none (h : t.Grows t') {l : Location} (hl : t'.get? l = none) : t.get? l = none := by
  cases hget : t.get? l with
  | none => rfl
  | some node =>
    cases node with
    | folder =>
      rw [h.folder l hget] at hl
      cases hl
    | file c =>
      obtain ⟨c', hc'⟩ := h.file l c hget
      rw [hc'] at hl
      cases hl

theorem Grows.start (h : t.Grows t') (path : String) : t'.start path = t.start path := by
  unfold FileTree.start
  rw [h.home]

theorem Leads.of_grows {l l' : Location} {segments : List String} (h : t.Leads l segments l') (hgrows : t.Grows t') :
    t'.Leads l segments l' := by
  induction h with
  | nil l => exact .nil l
  | stay folder here next ih => exact .stay (hgrows.folder _ folder) here ih
  | up folder next ih => exact .up (hgrows.folder _ folder) ih
  | down folder away notUp size present next ih =>
    exact .down (hgrows.folder _ folder) away notUp size (fun h => present (hgrows.none_of_none h)) ih

/-- A relative path below a root is walked from where the root is. -/
theorem start_join (t : FileTree) (root : String) {path : String} (h : Path.isAbsolute path = false) :
    t.start (Path.join root path) = t.start root := by
  unfold FileTree.start
  rw [Path.isAbsolute_join h]

theorem get?_put_self (t : FileTree) {l : Location} (hl : l ≠ []) (node : Node) :
    (t.put l node).get? l = some node := by
  rw [get?_put t l node l hl, if_pos rfl]

theorem get?_put_of_ne (t : FileTree) {l k : Location} (hk : k ≠ l) (node : Node) :
    (t.put l node).get? k = t.get? k := by
  by_cases hnil : k = []
  · subst hnil
    rfl
  · rw [get?_put t l node k hnil, if_neg hk]

theorem grows_put_folder {l : Location} (hl : t.get? l = none) : t.Grows (t.put l .folder) where
  home := home_put t l .folder
  folder k hk := by
    have hne : k ≠ l := by rintro rfl; rw [hl] at hk; cases hk
    rw [get?_put_of_ne t hne, hk]
  file k c hk := by
    have hne : k ≠ l := by rintro rfl; rw [hl] at hk; cases hk
    exact ⟨c, by rw [get?_put_of_ne t hne, hk]⟩

theorem grows_put_file {l : Location} (hl : t.get? l ≠ some .folder) (c : Content) : t.Grows (t.put l (.file c)) where
  home := home_put t l (.file c)
  folder k hk := by
    have hne : k ≠ l := by rintro rfl; exact hl hk
    rw [get?_put_of_ne t hne, hk]
  file k c' hk := by
    by_cases heq : k = l
    · subst heq
      have hnil : k ≠ [] := by rintro rfl; exact hl (get?_nil t)
      exact ⟨c, get?_put_self t hnil _⟩
    · exact ⟨c', by rw [get?_put_of_ne t heq, hk]⟩

/-! ### Operations -/

private theorem lastSegment?_eq_some {path name : String} {before : List String}
    (h : lastSegment? path = some (before, name)) :
    name ≠ "" ∧ ∃ after, Path.segments path = before ++ name :: after ∧ ∀ s ∈ after, s = "" := by
  unfold lastSegment? at h
  split at h
  · cases h
  · rename_i s rest hdrop
    cases h
    generalize htake : (Path.segments path).reverse.takeWhile (fun s => decide (s = "")) = empties
    have hsplit := List.takeWhile_append_dropWhile (p := fun s => decide (s = "")) (l := (Path.segments path).reverse)
    have hhead := List.head?_dropWhile_not (fun s => decide (s = "")) (Path.segments path).reverse
    rw [htake, hdrop] at hsplit
    rw [hdrop] at hhead
    refine ⟨by simpa using hhead, empties.reverse, ?_, ?_⟩
    · simpa using (congrArg List.reverse hsplit).symm
    · intro s hs
      rw [List.mem_reverse, ← htake] at hs
      simpa using List.mem_takeWhile_imp hs

/-- The place of something new: a plain name in the folder that the segments before it lead to. -/
private theorem place_eq_ok {path name : String} {taken : FileError} {folder : Location}
    (h : t.place path taken = .ok (folder, name)) :
    Path.isHere name = false ∧ name ≠ ".." ∧ t.get? folder = some .folder ∧
      ∃ before after, Path.segments path = before ++ name :: after ∧ (∀ s ∈ after, s = "") ∧
        t.Leads (t.start path) before folder := by
  unfold place at h
  cases hcheck : checkPath path with
  | error e => rw [hcheck] at h; cases h
  | ok u =>
    rw [hcheck] at h
    cases hlast : lastSegment? path with
    | none => rw [hlast] at h; cases h
    | some pair =>
      obtain ⟨before, s⟩ := pair
      rw [hlast] at h
      obtain ⟨hne, after, hsegments, hafter⟩ := lastSegment?_eq_some hlast
      cases hwalk : t.walk (t.start path) before with
      | error e => simp [hwalk, bind, Except.bind] at h
      | ok f =>
        cases hfolder : t.requireFolder f with
        | error e => simp [hwalk, hfolder, bind, Except.bind] at h
        | ok u =>
          simp only [hwalk, hfolder, bind, Except.bind] at h
          split at h
          · cases h
          · rename_i hplain
            cases h
            rw [not_or] at hplain
            refine ⟨by simp [Path.isHere, hne, hplain.1], hplain.2, requireFolder_eq_ok_iff.1 hfolder, before, after,
              hsegments, hafter, leads_of_walk hwalk⟩

/-- Something put in a place is where the path leads from then on. -/
private theorem leads_put {path name : String} {folder : Location} {before after : List String} {node : Node}
    (hgrows : t.Grows (t.put (folder ++ [name]) node)) (hplain : Path.isHere name = false) (hup : name ≠ "..")
    (hsize : name.utf8ByteSize ≤ maxName) (hfolder : t.get? folder = some .folder)
    (hbefore : t.Leads (t.start path) before folder)
    (hafter : (t.put (folder ++ [name]) node).Leads (folder ++ [name]) after (folder ++ [name])) :
    (t.put (folder ++ [name]) node).Leads (t.start path) (before ++ name :: after) (folder ++ [name]) := by
  refine (hbefore.of_grows hgrows).append (.down (hgrows.folder folder hfolder) hplain hup hsize ?_ hafter)
  rw [get?_put_self t (by simp) node]
  exact Option.some_ne_none node

theorem makeFolder_eq_ok {path : String} (h : t.makeFolder path = .ok t') :
    ∃ l, t.get? l = none ∧ t' = t.put l .folder ∧ t'.Leads (t.start path) (Path.segments path) l := by
  unfold makeFolder at h
  cases hplace : t.place path .alreadyExists with
  | error e => rw [hplace] at h; cases h
  | ok pair =>
    obtain ⟨folder, name⟩ := pair
    obtain ⟨hplain, hup, hfolder, before, after, hsegments, hafter, hbefore⟩ := place_eq_ok hplace
    simp only [hplace, bind, Except.bind] at h
    split at h
    · cases h
    · rename_i hsize
      split at h
      · cases h
      · rename_i habsent
        cases h
        rw [Bool.not_eq_true, Option.isSome_eq_false_iff, Option.isNone_iff_eq_none] at habsent
        refine ⟨folder ++ [name], habsent, rfl, ?_⟩
        rw [hsegments]
        refine leads_put (grows_put_folder habsent) hplain hup (by omega) hfolder hbefore ?_
        exact leads_of_empty (get?_put_self t (by simp) .folder) hafter

/-- Making the folder that a beginning of a path names puts a folder where that beginning leads from then on. -/
theorem makeFolder_begin {path s : String} {before : List String} (hbegin : before ++ [s] <+: Path.segments path)
    (hs : Path.isHere s = false) (h : t.makeFolder (Path.ofSegments (before ++ [s])) = .ok t') :
    ∃ l, t.get? l = none ∧ t' = t.put l .folder ∧ t'.Leads (t.start path) (before ++ [s]) l := by
  obtain ⟨l, habsent, hput, hleads⟩ := makeFolder_eq_ok h
  have hslash : ∀ r ∈ before ++ [s], '/' ∉ r.toList :=
    fun r hr => Path.slash_not_mem_of_mem_segments (hbegin.subset hr)
  have hstart : t.start (Path.ofSegments (before ++ [s])) = t.start path := by
    unfold FileTree.start
    rw [Path.isAbsolute_ofSegments_of_begin hbegin hs]
  rw [hstart, Path.segments_ofSegments (by simp) hslash] at hleads
  exact ⟨l, habsent, hput, hleads⟩

theorem writeText_eq_ok {path content : String} (h : t.writeText path content = .ok t') :
    ∃ l, t.get? l ≠ some .folder ∧ t' = t.put l (.file (.text content)) ∧
      t'.Leads (t.start path) (Path.segments path) l ∧
      ∃ name, (Path.segments path).getLast? = some name ∧ Path.isHere name = false := by
  unfold writeText at h
  cases hplace : t.place path .isFolder with
  | error e => rw [hplace] at h; cases h
  | ok pair =>
    obtain ⟨folder, name⟩ := pair
    obtain ⟨hplain, hup, hfolder, before, after, hsegments, hafter, hbefore⟩ := place_eq_ok hplace
    simp only [hplace, bind, Except.bind] at h
    split at h
    · cases h
    · rename_i hslash
      split at h
      · cases h
      · rename_i hsize
        split at h
        · cases h
        · rename_i hfile
          cases h
          -- the path does not end in a slash, so nothing comes after the name
          have hnil : after = [] := by
            rcases List.eq_nil_or_concat after with hnil | ⟨most, last, rfl⟩
            · exact hnil
            · have hlast : last = "" := hafter last (by simp)
              have hend : Path.segments path = (before ++ name :: most) ++ [""] := by rw [hsegments, hlast]; simp
              exact absurd (Path.getLast?_of_segments_eq hend (by simp)) hslash
          subst hnil
          refine ⟨folder ++ [name], hfile, rfl, ?_, name, by rw [hsegments]; simp, hplain⟩
          rw [hsegments]
          exact leads_put (grows_put_file hfile _) hplain hup (by omega) hfolder hbefore (.nil _)

end FileTree

/-! ### Failures of the file system -/

/-- A result other than the refusal of a filename: the file system never refuses one. -/
def Unrefused {α : Type} (r : Except FileError α) : Prop := ∀ filename, r ≠ .error (.outside filename)

section Unrefused

variable {α β : Type}

theorem unrefused_ok (a : α) : Unrefused (.ok a : Except FileError α) := by simp [Unrefused]

private theorem Unrefused.bind {x : Except FileError α} {f : α → Except FileError β} (hx : Unrefused x)
    (hf : ∀ a, Unrefused (f a)) : Unrefused (x >>= f) := by
  cases x with
  | error e =>
    intro filename h
    exact hx filename (congrArg Except.error (Except.error.inj h))
  | ok a => exact hf a

namespace FileTree

private theorem unrefused_checkPath (path : String) : Unrefused (checkPath path) := by
  unfold checkPath Unrefused
  intro filename
  split
  · simp
  · split
    · simp
    · split <;> simp

private theorem unrefused_requireFolder (t : FileTree) (l : Location) : Unrefused (t.requireFolder l) := by
  unfold requireFolder Unrefused
  intro filename
  split <;> simp

private theorem unrefused_walk (t : FileTree) (l : Location) (segments : List String) :
    Unrefused (t.walk l segments) := by
  induction segments generalizing l with
  | nil => exact unrefused_ok l
  | cons s rest ih =>
    refine (t.unrefused_requireFolder l).bind fun _ => ?_
    split
    · exact ih l
    · split
      · exact ih _
      · split
        · simp [Unrefused]
        · split
          · simp [Unrefused]
          · exact ih _

private theorem unrefused_place (t : FileTree) (path : String) {taken : FileError}
    (h : ∀ filename, taken ≠ .outside filename) :
    Unrefused (t.place path taken) := by
  have htaken : Unrefused (.error taken : Except FileError (Location × String)) :=
    fun filename heq => h filename (Except.error.inj heq)
  refine (unrefused_checkPath path).bind fun _ => ?_
  split
  · exact htaken
  · refine (t.unrefused_walk _ _).bind fun folder => (t.unrefused_requireFolder folder).bind fun _ => ?_
    split
    · exact htaken
    · exact unrefused_ok _

theorem unrefused_makeFolder (t : FileTree) (path : String) : Unrefused (t.makeFolder path) := by
  refine (t.unrefused_place path (by simp)).bind fun (pair : Location × String) => ?_
  obtain ⟨folder, name⟩ := pair
  show Unrefused (ite _ _ _)
  split
  · simp [Unrefused]
  · split
    · simp [Unrefused]
    · exact unrefused_ok _

theorem unrefused_writeText (t : FileTree) (path content : String) : Unrefused (t.writeText path content) := by
  refine (t.unrefused_place path (by simp)).bind fun (pair : Location × String) => ?_
  obtain ⟨folder, name⟩ := pair
  show Unrefused (ite _ _ _)
  split
  · simp [Unrefused]
  · split
    · simp [Unrefused]
    · split
      · simp [Unrefused]
      · exact unrefused_ok _

end FileTree

end Unrefused

/-! ### Scripts -/

namespace Script

variable {α β : Type} {R : FileTree → FileTree → Prop} {P : α → Prop} {Q : β → Prop}

/-- From whatever tree a script starts, the tree it leaves is related to it, and its value has a property. -/
def Ensures (R : FileTree → FileTree → Prop) (P : α → Prop) (s : Script α) : Prop :=
  ∀ t, R t (s.run t).2 ∧ P (s.run t).1

theorem ensures_done [IsPreorder FileTree R] {a : α} (h : P a) : Ensures R P (.done a) := fun t => ⟨refl_of R t, h⟩

theorem Ensures.andThen [IsPreorder FileTree R] {s : Script α} {f : α → Script β} (hs : Ensures R P s)
    (hf : ∀ a, P a → Ensures R Q (f a)) : Ensures R Q (s.andThen f) := by
  intro t
  obtain ⟨hfirst, hvalue⟩ := hs t
  obtain ⟨hsecond, hresult⟩ := hf _ hvalue (s.run t).2
  rw [run_andThen]
  exact ⟨trans_of R hfirst hsecond, hresult⟩

theorem ensures_isFolder {path : String} {next : Bool → Script α} (h : ∀ there, Ensures R P (next there)) :
    Ensures R P (.isFolder path next) := fun t => h _ t

/-- A step that may change the tree: it is related to what it was if the step succeeds, and stays as it was if not. -/
private theorem ensures_step [IsPreorder FileTree R] {op : FileTree → Except FileError FileTree}
    {next : Except FileError Unit → Script α} (hunrefused : ∀ t, Unrefused (op t))
    (hop : ∀ t t', op t = .ok t' → R t t') (hnext : ∀ r, Unrefused r → Ensures R P (next r)) (t : FileTree) :
    R t ((next (settle t (op t)).1).run (settle t (op t)).2).2 ∧
      P ((next (settle t (op t)).1).run (settle t (op t)).2).1 := by
  cases hresult : op t with
  | ok t' =>
    obtain ⟨hafter, hvalue⟩ := hnext (.ok ()) (unrefused_ok ()) t'
    exact ⟨trans_of R (hop t t' hresult) hafter, hvalue⟩
  | error e =>
    refine hnext (.error e) (fun filename h => ?_) t
    exact hunrefused t filename (by rw [hresult, Except.error.inj h])

theorem ensures_makeFolder [IsPreorder FileTree R] {path : String} {next : Except FileError Unit → Script α}
    (hop : ∀ t t', t.makeFolder path = .ok t' → R t t') (hnext : ∀ r, Unrefused r → Ensures R P (next r)) :
    Ensures R P (.makeFolder path next) :=
  ensures_step (fun t => t.unrefused_makeFolder path) hop hnext

theorem ensures_writeText [IsPreorder FileTree R] {path content : String} {next : Except FileError Unit → Script α}
    (hop : ∀ t t', t.writeText path content = .ok t' → R t t') (hnext : ∀ r, Unrefused r → Ensures R P (next r)) :
    Ensures R P (.writeText path content next) :=
  ensures_step (fun t => t.unrefused_writeText path content) hop hnext

/-- A folder that cannot be made is fine if it is there. -/
private theorem ensures_there [IsPreorder FileTree R] {path : String} {e : FileError}
    (h : Unrefused (.error e : Except FileError Unit)) :
    Ensures R Unrefused (.isFolder path fun there => .done (if there then .ok () else .error e)) := by
  refine ensures_isFolder fun there => ensures_done ?_
  split
  · exact unrefused_ok ()
  · exact h

/-- Making a folder and those above it ensures what making each of them does. -/
theorem ensures_makeFolders [IsPreorder FileTree R] {segments : List String}
    (hop : ∀ s above, s :: above <:+ segments → Path.isHere s = false →
      ∀ t t', t.makeFolder (Path.ofSegments (s :: above).reverse) = .ok t' → R t t') :
    Ensures R Unrefused (makeFolders segments) := by
  induction segments with
  | nil => exact ensures_done (unrefused_ok ())
  | cons s above ih =>
    have habove : Ensures R Unrefused (makeFolders above) :=
      ih fun s' above' hsuffix => hop s' above' (hsuffix.trans (List.suffix_cons s above))
    unfold makeFolders
    split
    · exact habove
    · rename_i hs
      have hmake := hop s above (List.suffix_refl _) (Bool.eq_false_iff.2 hs)
      refine ensures_makeFolder hmake fun r hr => ?_
      split
      · -- something above is missing: it is made first, and then the folder is tried again
        refine habove.andThen fun r' hr' => ?_
        split
        · refine ensures_makeFolder hmake fun r'' hr'' => ?_
          split
          · exact ensures_done hr''
          · exact ensures_there hr''
        · exact ensures_done hr'
      · cases r with
        | ok u => exact ensures_done hr
        | error e => exact ensures_there hr

theorem run_bind_ok {ε : Type} {x : ExceptT ε Script α} {f : α → ExceptT ε Script β} {t t' : FileTree} {a : α}
    (h : x.run.run t = (.ok a, t')) : (x >>= f).run.run t = (f a).run.run t' := by
  have hbind : (x >>= f).run = x.run.andThen (ExceptT.bindCont f) := rfl
  rw [hbind, run_andThen, h]
  rfl

theorem run_bind_error {ε : Type} {x : ExceptT ε Script α} {f : α → ExceptT ε Script β} {t t' : FileTree} {e : ε}
    (h : x.run.run t = (.error e, t')) : (x >>= f).run.run t = (.error e, t') := by
  have hbind : (x >>= f).run = x.run.andThen (ExceptT.bindCont f) := rfl
  rw [hbind, run_andThen, h]
  rfl

/-- One failing script after another; the second is not begun if the first fails. -/
theorem Ensures.bind [IsPreorder FileTree R] {x : Failing α} {f : α → Failing β} (hx : Ensures R Unrefused x.run)
    (hf : ∀ a, Ensures R Unrefused (f a).run) : Ensures R Unrefused (x >>= f).run := by
  refine hx.andThen fun r hr => ?_
  cases r with
  | ok a => exact hf a
  | error e => exact ensures_done fun filename h => hr filename (congrArg Except.error (Except.error.inj h))

end Script

end SchemaDecl
