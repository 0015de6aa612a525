import Sbe.Files.Job

/-!
**Writing files into a folder.**

A folder is a map from names to contents. The path of a name inside a folder leads to the folder's
own place and then to the name, whatever the folders on the way, so that a write changes the content
of that name and nothing else; of several writes to a name the last counts.

* `Path.place`: where a path leads;
* `Tree.put`, `Tree.putAll`: contents put under names of a folder, and what is then there;
* `Tree.write_inside`: what a write to a name inside a folder does;
* `Job.files_makeFolders`: making folders leaves all files.
-/

namespace Sbe.Files

/-! ### Paths -/

theorem partsFrom_of_plain {text : List Char} (plain : '/' ∉ text) (part : List Char) :
    partsFrom part text = [String.ofList (part.reverse ++ text)] := by
  induction text generalizing part with
  | nil => rw [partsFrom, List.append_nil]
  | cons character rest ih =>
    simp only [List.mem_cons, not_or] at plain
    rw [partsFrom, if_neg (Ne.symm plain.1), ih plain.2, List.reverse_cons, List.append_assoc]
    rfl

/-- A slash ends one part and starts the next. -/
theorem partsFrom_append_slash (part front rest : List Char) :
    partsFrom part (front ++ '/' :: rest) = partsFrom part front ++ partsFrom [] rest := by
  induction front generalizing part with
  | nil => simp [partsFrom]
  | cons character front ih =>
    rw [List.cons_append, partsFrom, partsFrom, ih, ih]
    split
    · rw [List.cons_append]
    · rfl

/-- The folder that steps lead to from a folder, were there folders all along the way. -/
def Path.resolve (place : Place) : List String → Place
  | [] => place
  | step :: rest =>
    if isIdle step then resolve place rest
    else if step = ".." then resolve place.dropLast rest
    else resolve (place ++ [step]) rest

/-- The folder that a path leads to from a working folder. -/
def Path.place (working : Place) (text : String) : Place :=
  resolve (Tree.start working (ofText text)) (ofText text).steps

namespace Tree

theorem walk_append (tree : Tree) (place : Place) (front rest : List String) :
    tree.walk place (front ++ rest) =
      (tree.walk place front).bind fun folder => tree.walk folder rest := by
  induction front generalizing place with
  | nil => rfl
  | cons step front ih =>
    rw [List.cons_append, walk, walk]
    split
    · exact ih place
    · split
      · exact ih place.dropLast
      · split
        · exact ih (place ++ [step])
        · rfl

theorem eq_resolve_of_walk {tree : Tree} {place folder : Place} {steps : List String}
    (walked : tree.walk place steps = .ok folder) : folder = Path.resolve place steps := by
  induction steps generalizing place with
  | nil =>
    cases walked
    rfl
  | cons step rest ih =>
    rw [walk] at walked
    rw [Path.resolve]
    split at walked
    · next idle => rw [if_pos idle, ih walked]
    · next moves =>
      rw [if_neg moves]
      split at walked
      · next back => rw [if_pos back, ih walked]
      · next forth =>
        rw [if_neg forth]
        split at walked
        · exact ih walked
        · cases walked

end Tree

theorem Path.parts_of_plain {name : String} (plain : '/' ∉ name.toList) :
    partsFrom [] name.toList = [name] := by
  rw [partsFrom_of_plain plain, List.reverse_nil, List.nil_append, String.ofList_toList]

theorem Path.head_ne_slash {text : List Char} (plain : '/' ∉ text) :
    (text.head? == some '/') = false := by
  cases text with
  | nil => rfl
  | cons first rest =>
    rw [List.mem_cons, not_or] at plain
    simpa using Ne.symm plain.1

/-- The path of a name inside a folder has the steps of the folder, as far as they move, and then
the name. -/
theorem Path.steps_inside (folder : String) {name : String} (plain : '/' ∉ name.toList) :
    (ofText (inside folder name)).absolute = (ofText folder).absolute ∧
      ∃ before, (ofText (inside folder name)).steps = before ++ [name] ∧
        ∀ (tree : Tree) (place : Place),
          tree.walk place before = tree.walk place (ofText folder).steps := by
  have single := parts_of_plain plain
  have relative := head_ne_slash plain
  by_cases empty : folder = ""
  · subst empty
    have here : inside "" name = name := by simp [inside]
    refine ⟨?_, [], ?_, fun tree place => rfl⟩
    · rw [here]
      exact relative
    · rw [here]
      exact single
  by_cases open_ : folder.toList.getLast? = some '/'
  · obtain ⟨front, ends⟩ := List.getLast?_eq_some_iff.mp open_
    have text : (inside folder name).toList = front ++ '/' :: name.toList := by
      simp [inside, relative, empty, ends]
    refine ⟨?_, partsFrom [] front, ?_, fun tree place => ?_⟩
    · rw [ofText, ofText, text, ends]
      cases front <;> rfl
    · rw [ofText, text, partsFrom_append_slash, single]
    · rw [ofText, ends, partsFrom_append_slash, Tree.walk_append]
      cases tree.walk place (partsFrom [] front) with
      | error obstacle => rfl
      | ok found => rfl
  · have text : (inside folder name).toList = folder.toList ++ '/' :: name.toList := by
      simp [inside, relative, empty, open_]
    refine ⟨?_, (ofText folder).steps, ?_, fun tree place => rfl⟩
    · rw [ofText, ofText, text]
      cases characters : folder.toList with
      | nil => exact absurd (String.toList_eq_nil_iff.mp characters) empty
      | cons first rest => rfl
    · rw [ofText, text, partsFrom_append_slash, single]
      rfl

/-! ### Contents under names -/

/-- The name of what stands right inside a folder. -/
def nameIn (folder place : Place) : Option String :=
  if place.dropLast = folder then place.getLast? else none

theorem nameIn_eq_some_iff {folder place : Place} {name : String} :
    nameIn folder place = some name ↔ place = folder ++ [name] := by
  unfold nameIn
  constructor
  · intro found
    split at found
    · next inside =>
      obtain ⟨front, rfl⟩ := List.getLast?_eq_some_iff.mp found
      rw [← inside, List.dropLast_concat]
    · cases found
  · rintro rfl
    rw [List.dropLast_concat, if_pos rfl, List.getLast?_concat]

namespace Tree

/-- The names of the files right inside a folder. -/
def listing (tree : Tree) (folder : Place) : List String :=
  (tree.files.map Prod.fst).filterMap (nameIn folder)

/-- The tree with a content at a place. -/
def put (tree : Tree) (place : Place) (content : String) : Tree :=
  { tree with files := setContent place content tree.files }

/-- The tree with contents under names of a folder, put there one after another. -/
def putAll (tree : Tree) (folder : Place) (entries : List (String × String)) : Tree :=
  entries.foldl (fun tree entry => tree.put (folder ++ [entry.1]) entry.2) tree

theorem keys_setContent (place : Place) (content : String) (files : List (Place × String)) :
    (setContent place content files).map Prod.fst =
      if place ∈ files.map Prod.fst then files.map Prod.fst else files.map Prod.fst ++ [place] := by
  induction files with
  | nil => rfl
  | cons file rest ih =>
    rw [setContent]
    by_cases same : file.1 = place
    · simp [same]
    · simp only [if_neg same, List.map_cons, ih, List.mem_cons, Ne.symm same, false_or]
      split
      · rfl
      · rfl

theorem content?_put (tree : Tree) (place other : Place) (content : String) :
    (tree.put place content).content? other =
      if other = place then some content else tree.content? other := by
  rw [content?, content?, put]
  dsimp only
  induction tree.files with
  | nil =>
    by_cases same : place = other
    · simp [setContent, same]
    · simp [setContent, same, Ne.symm same]
  | cons file rest ih =>
    rw [setContent]
    by_cases same : file.1 = place
    · by_cases found : other = place
      · simp [same, found]
      · simp [same, found, Ne.symm found]
    · by_cases found : file.1 = other
      · have differs : ¬ other = place := fun equal => same (found.trans equal)
        simp [found, differs]
      · simpa [same, found] using ih

theorem mem_listing_iff {tree : Tree} {folder : Place} {name : String} :
    name ∈ tree.listing folder ↔ folder ++ [name] ∈ tree.files.map Prod.fst := by
  rw [listing, List.mem_filterMap]
  constructor
  · rintro ⟨place, member, found⟩
    rwa [← nameIn_eq_some_iff.mp found]
  · intro member
    exact ⟨_, member, nameIn_eq_some_iff.mpr rfl⟩

theorem listing_put (tree : Tree) (folder : Place) (name content : String) :
    (tree.put (folder ++ [name]) content).listing folder =
      if name ∈ tree.listing folder then tree.listing folder
        else tree.listing folder ++ [name] := by
  rw [listing, put, keys_setContent]
  by_cases there : name ∈ tree.listing folder
  · rw [if_pos there, if_pos (mem_listing_iff.mp there)]
    rfl
  · rw [if_neg there, if_neg fun member => there (mem_listing_iff.mpr member),
      List.filterMap_append, List.filterMap_cons_some (nameIn_eq_some_iff.mpr rfl)]
    rfl

theorem content?_of_listing {tree : Tree} {folder : Place} {name : String}
    (absent : name ∉ tree.listing folder) : tree.content? (folder ++ [name]) = none := by
  rw [content?, Option.map_eq_none_iff, List.find?_eq_none]
  intro file member same
  refine absent (mem_listing_iff.mpr ?_)
  rw [← beq_iff_eq.mp same]
  exact List.mem_map_of_mem member

/-- A name holds what was last put under it. -/
theorem content?_putAll (tree : Tree) (folder : Place) (entries : List (String × String))
    (name : String) : (tree.putAll folder entries).content? (folder ++ [name]) =
      (entries.reverse.lookup name).or (tree.content? (folder ++ [name])) := by
  induction entries generalizing tree with
  | nil => rfl
  | cons entry rest ih =>
    obtain ⟨file, content⟩ := entry
    have step : tree.putAll folder ((file, content) :: rest) =
        (tree.put (folder ++ [file]) content).putAll folder rest := rfl
    rw [step, ih, content?_put, List.reverse_cons, List.lookup_append]
    by_cases same : name = file
    · simp [same]
    · simp [same, List.lookup_cons, beq_eq_false_iff_ne.mpr same]

/-- The names of a folder are those that were there and those under which something was put. -/
theorem mem_listing_putAll {tree : Tree} {folder : Place} {entries : List (String × String)}
    {name : String} : name ∈ (tree.putAll folder entries).listing folder ↔
      name ∈ tree.listing folder ∨ name ∈ entries.map Prod.fst := by
  induction entries generalizing tree with
  | nil => simp [putAll]
  | cons entry rest ih =>
    have step : tree.putAll folder (entry :: rest) =
        (tree.put (folder ++ [entry.1]) entry.2).putAll folder rest := rfl
    rw [step, ih, listing_put, List.map_cons, List.mem_cons]
    by_cases there : entry.1 ∈ tree.listing folder
    · rw [if_pos there]
      constructor
      · rintro (old | new)
        · exact .inl old
        · exact .inr (.inr new)
      · rintro (old | rfl | new)
        · exact .inl old
        · exact .inl there
        · exact .inr new
    · rw [if_neg there, List.mem_append, List.mem_singleton, or_assoc]

/-- No name of a folder is listed twice for being written to. -/
theorem nodup_listing_putAll {tree : Tree} {folder : Place} (entries : List (String × String))
    (single : (tree.listing folder).Nodup) :
    ((tree.putAll folder entries).listing folder).Nodup := by
  induction entries generalizing tree with
  | nil => exact single
  | cons entry rest ih =>
    have step : tree.putAll folder (entry :: rest) =
        (tree.put (folder ++ [entry.1]) entry.2).putAll folder rest := rfl
    rw [step]
    refine ih ?_
    rw [listing_put]
    split
    · exact single
    · next absent =>
      refine List.nodup_append.mpr ⟨single, by simp, fun name old other new same => absent ?_⟩
      rwa [← List.mem_singleton.mp new, ← same]

/-! ### Writing and making folders -/

/-- A write to a name inside a folder puts the content under that name. -/
theorem write_inside {tree after : Tree} {working : Place} {folder name content : String}
    (plain : '/' ∉ name.toList)
    (written : tree.write working (Path.inside folder name) content = some after) :
    after = tree.put (Path.place working folder ++ [name]) content := by
  obtain ⟨absolute, before, steps, same⟩ := Path.steps_inside folder plain
  obtain ⟨place, found, written⟩ := Option.bind_eq_some_iff.mp written
  have located : place = Path.place working folder ++ [name] := by
    rw [filePlace, steps, List.getLast?_concat, List.dropLast_concat] at found
    dsimp only at found
    split at found
    · rw [same, start, absolute] at found
      split at found
      · next walked =>
        cases found
        rw [eq_resolve_of_walk walked]
        rfl
      · cases found
    · cases found
  split at written
  · cases written
  · cases written
    rw [located]
    rfl

theorem files_makeLast (tree : Tree) (place : Place) (names : List String) :
    (tree.makeLast place names).2.files = tree.files := by
  unfold makeLast
  split
  · rfl
  · split
    · rfl
    · rfl
    · split
      · rfl
      · split
        · rfl
        · rfl

theorem files_makeFolder (tree : Tree) (working : Place) (path : String) :
    (tree.makeFolder working path).2.files = tree.files := by
  unfold makeFolder
  dsimp only
  split
  · rfl
  · split
    · exact files_makeLast tree _ _
    · rfl

end Tree

namespace Job

variable {α β : Type}

theorem run_bind (working : Place) (job : Job α) (next : α → Job β) (tree : Tree) :
    (job >>= next).run working tree =
      (next (job.run working tree).1).run working (job.run working tree).2 := by
  show (job.andThen next).run working tree = _
  induction job generalizing tree with
  | done value => rfl
  | read path following ih => exact ih _ tree
  | write path content following ih =>
    rw [andThen, run, run]
    cases tree.write working path content with
    | none => exact ih false tree
    | some written => exact ih true written
  | makeFolder path following ih => exact ih _ _

theorem files_makeInnermost (working : Place) (paths : List String) (tree : Tree) :
    ((makeInnermost paths).run working tree).2.files = tree.files := by
  induction paths generalizing tree with
  | nil => rfl
  | cons path outer ih =>
    have made := tree.files_makeFolder working path
    rw [makeInnermost, run]
    split
    · rw [run_bind]
      split
      · rw [run, run, Tree.files_makeFolder, ih, made]
      · rw [run, ih, made]
    · exact made

/-- Making folders leaves all files. -/
theorem files_makeFolders (working : Place) (path : String) (tree : Tree) :
    ((makeFolders path).run working tree).2.files = tree.files := by
  unfold makeFolders
  split
  · rfl
  · exact files_makeInnermost working _ tree

end Job

end Sbe.Files
