import Mathlib.Data.List.Basic
import Unnest.Files.Access
import Unnest.FileName

/-!
# Paths in a tree that is written to

Where a path leads is a matter of the directories of a tree (`follow?_congr`), and with more directories no path
leads to another place (`follow?_mono`). Making directories puts them where nothing was (`furnished_makePath`);
making them once more changes nothing (`makePath_makePath`), and if all of them could be made, there is nothing left
to make in any tree that has them (`makePath_of_grows`). A path that joins a directory and a name leads to a place
of that name (`head?_of_follow?_join`), so different names lead to different places.
-/

namespace Unnest

namespace FileTree
variable {tree tree' made : FileTree} {place next : Place} {path : String}

theorem isDirectory_iff : tree.isDirectory place = true ↔ tree.get? place = some .directory := by
  rw [isDirectory]
  rcases tree.get? place with _ | (_ | content) <;> simp

theorem isDirectory_of_step? {name : String} (h : tree.step? place name = some next) :
    tree.isDirectory place = true := by
  by_contra hd
  rw [step?, Bool.not_eq_true] at *
  simp [hd] at h

/-! ### Trees with more directories -/

/-- All directories of a tree are directories of another. -/
def Grows (tree tree' : FileTree) : Prop :=
  ∀ place, tree.isDirectory place = true → tree'.isDirectory place = true

theorem Grows.refl (tree : FileTree) : tree.Grows tree := fun _ h => h

theorem step?_mono (hgrows : tree.Grows tree') {name : String} (h : tree.step? place name = some next) :
    tree'.step? place name = some next := by
  have hd := isDirectory_of_step? h
  have hd' := hgrows place hd
  simp only [step?, hd, hd'] at h ⊢
  exact h

theorem foldlM_step?_mono (hgrows : tree.Grows tree') {names : List String}
    (h : names.foldlM tree.step? place = some next) : names.foldlM tree'.step? place = some next := by
  induction names generalizing place with
  | nil => exact h
  | cons name names ih =>
    rw [List.foldlM_cons] at h ⊢
    obtain ⟨between, hstep, hrest⟩ := Option.bind_eq_some_iff.1 h
    rw [step?_mono hgrows hstep]
    exact ih hrest

theorem follow?_mono (hgrows : tree.Grows tree') (h : tree.follow? path = some place) :
    tree'.follow? path = some place := by
  obtain ⟨start, hstart, hnames⟩ := Option.bind_eq_some_iff.1 h
  rw [follow?, hstart]
  exact foldlM_step?_mono hgrows hnames

theorem follow?_congr (h : ∀ place, tree'.isDirectory place = tree.isDirectory place) :
    tree'.follow? path = tree.follow? path := by
  have hstep : tree'.step? = tree.step? := by
    funext place name
    rw [step?, step?, h]
  rw [follow?, follow?, hstep]

/-- The content of the file at a place. -/
def content? (tree : FileTree) (place : Place) : Option Content :=
  match tree.get? place with
  | some (.file content) => some content
  | _ => none

theorem content?_eq_some {content : Content} :
    tree.content? place = some content ↔ tree.get? place = some (.file content) := by
  rw [content?]
  rcases tree.get? place with _ | (_ | other) <;> simp

theorem read?_eq_bind (tree : FileTree) (path : String) :
    tree.read? path = (tree.follow? path).bind tree.content? := by
  rw [read?]
  cases tree.follow? path <;> rfl

/-! ### Making directories -/

/-- A tree to which directories have been added in places where nothing was. -/
def Furnished (tree tree' : FileTree) : Prop :=
  ∀ place, tree'.get? place = tree.get? place ∨ tree.get? place = none ∧ tree'.get? place = some .directory

namespace Furnished

theorem refl (tree : FileTree) : tree.Furnished tree := fun _ => .inl rfl

theorem trans {tree'' : FileTree} (h : tree.Furnished tree') (h' : tree'.Furnished tree'') :
    tree.Furnished tree'' := by
  intro place
  rcases h place with he | ⟨hn, hd⟩
  · rcases h' place with he' | ⟨hn', hd'⟩
    · exact .inl (he'.trans he)
    · exact .inr ⟨he.symm.trans hn', hd'⟩
  · rcases h' place with he' | ⟨hn', -⟩
    · exact .inr ⟨hn, he'.trans hd⟩
    · exact nomatch hd.symm.trans hn'

theorem grows (h : tree.Furnished tree') : tree.Grows tree' := by
  intro place hd
  rw [isDirectory_iff] at hd ⊢
  rcases h place with he | ⟨hn, -⟩
  · exact he.trans hd
  · exact nomatch hd.symm.trans hn

theorem get?_eq_file_iff (h : tree.Furnished tree') {content : Content} :
    tree'.get? place = some (.file content) ↔ tree.get? place = some (.file content) := by
  rcases h place with he | ⟨hn, hd⟩
  · rw [he]
  · rw [hn, hd]
    exact ⟨nofun, nofun⟩

end Furnished

theorem isOuter_of_absent (h : tree.get? place = none) : place.isOuter = false := by
  by_contra ho
  rw [get?, if_pos (by simpa using ho)] at h
  cases h

theorem furnished_put (h : tree.get? place = none) : tree.Furnished (tree.put place .directory) := by
  intro other
  rw [get?_put tree place other _ (isOuter_of_absent h)]
  split
  · rename_i hplace
    exact .inr ⟨hplace ▸ h, rfl⟩
  · exact .inl rfl

section
variable {name : String} {names : List String}

theorem makeDirectories_of_none (h : tree.step? place name = none) :
    tree.makeDirectories place (name :: names) = (false, tree) := by
  rw [makeDirectories, h]

theorem makeDirectories_of_file {content : Content} (h : tree.step? place name = some next)
    (hnext : tree.get? next = some (.file content)) :
    tree.makeDirectories place (name :: names) = (false, tree) := by
  simp only [makeDirectories, h, hnext]

theorem makeDirectories_of_directory (h : tree.step? place name = some next)
    (hnext : tree.get? next = some .directory) :
    tree.makeDirectories place (name :: names) = tree.makeDirectories next names := by
  simp only [makeDirectories, h, hnext]

theorem makeDirectories_of_absent (h : tree.step? place name = some next) (hnext : tree.get? next = none) :
    tree.makeDirectories place (name :: names) = (tree.put next .directory).makeDirectories next names := by
  simp only [makeDirectories, h, hnext]

end

theorem isDirectory_put (h : tree.get? place = none) : (tree.put place .directory).isDirectory place = true := by
  rw [isDirectory_iff, get?_put tree place place _ (isOuter_of_absent h), if_pos rfl]

theorem furnished_makeDirectories (tree : FileTree) (place : Place) (names : List String) :
    tree.Furnished (tree.makeDirectories place names).2 := by
  induction names generalizing tree place with
  | nil => exact .refl tree
  | cons name names ih =>
    cases hstep : tree.step? place name with
    | none =>
      rw [makeDirectories_of_none hstep]
      exact .refl tree
    | some next =>
      rcases hnext : tree.get? next with _ | (_ | content)
      · rw [makeDirectories_of_absent hstep hnext]
        exact (furnished_put hnext).trans (ih _ next)
      · rw [makeDirectories_of_directory hstep hnext]
        exact ih tree next
      · rw [makeDirectories_of_file hstep hnext]
        exact .refl tree

theorem makeDirectories_makeDirectories (tree : FileTree) (place : Place) (names : List String) :
    (tree.makeDirectories place names).2.makeDirectories place names = tree.makeDirectories place names := by
  induction names generalizing tree place with
  | nil => rfl
  | cons name names ih =>
    cases hstep : tree.step? place name with
    | none => rw [makeDirectories_of_none hstep, makeDirectories_of_none hstep]
    | some next =>
      -- once the first name leads to a directory, it does so in the tree that is left
      have hentered : ∀ entered : FileTree, tree.Grows entered → entered.isDirectory next = true →
          (entered.makeDirectories next names).2.makeDirectories place (name :: names) =
            entered.makeDirectories next names := by
        intro entered hgrows hd
        have hgrows' := (furnished_makeDirectories entered next names).grows
        rw [makeDirectories_of_directory (step?_mono hgrows' (step?_mono hgrows hstep))
          (isDirectory_iff.1 (hgrows' next hd)), ih]
      rcases hnext : tree.get? next with _ | (_ | content)
      · rw [makeDirectories_of_absent hstep hnext]
        exact hentered _ (furnished_put hnext).grows (isDirectory_put hnext)
      · rw [makeDirectories_of_directory hstep hnext]
        exact hentered tree (.refl tree) (isDirectory_iff.2 hnext)
      · rw [makeDirectories_of_file hstep hnext, makeDirectories_of_file hstep hnext]

/-- All names lead on to directories. -/
def Leads (tree : FileTree) (place : Place) (names : List String) : Prop :=
  ∃ last, names.foldlM tree.step? place = some last ∧ tree.isDirectory last = true

theorem Leads.mono (hgrows : tree.Grows tree') {names : List String} (h : tree.Leads place names) :
    tree'.Leads place names := by
  obtain ⟨last, hlast, hd⟩ := h
  exact ⟨last, foldlM_step?_mono hgrows hlast, hgrows last hd⟩

theorem leads_cons {name : String} {names : List String} :
    tree.Leads place (name :: names) ↔ ∃ next, tree.step? place name = some next ∧ tree.Leads next names := by
  simp only [Leads, List.foldlM_cons]
  constructor
  · rintro ⟨last, hlast, hd⟩
    obtain ⟨next, hnext, hrest⟩ := Option.bind_eq_some_iff.1 hlast
    exact ⟨next, hnext, last, hrest, hd⟩
  · rintro ⟨next, hnext, last, hrest, hd⟩
    exact ⟨last, Option.bind_eq_some_iff.2 ⟨next, hnext, hrest⟩, hd⟩

theorem Leads.isDirectory {names : List String} (h : tree.Leads place names) : tree.isDirectory place = true := by
  cases names with
  | nil =>
    obtain ⟨last, hlast, hd⟩ := h
    rwa [Option.some_inj.1 hlast]
  | cons name names =>
    obtain ⟨next, hnext, -⟩ := leads_cons.1 h
    exact isDirectory_of_step? hnext

theorem Leads.makeDirectories {names : List String} (h : tree.Leads place names) :
    tree.makeDirectories place names = (true, tree) := by
  induction names generalizing place with
  | nil => rfl
  | cons name names ih =>
    obtain ⟨next, hnext, hrest⟩ := leads_cons.1 h
    rw [makeDirectories_of_directory hnext (isDirectory_iff.1 hrest.isDirectory), ih hrest]

theorem leads_of_makeDirectories {names : List String} (hplace : tree.isDirectory place = true)
    (h : tree.makeDirectories place names = (true, made)) : made.Leads place names := by
  induction names generalizing tree place with
  | nil =>
    cases h
    exact ⟨place, rfl, hplace⟩
  | cons name names ih =>
    cases hstep : tree.step? place name with
    | none => exact nomatch (makeDirectories_of_none hstep).symm.trans h
    | some next =>
      have hgrows : tree.Grows made := by
        have hfurnished := furnished_makeDirectories tree place (name :: names)
        rw [h] at hfurnished
        exact hfurnished.grows
      refine leads_cons.2 ⟨next, step?_mono hgrows hstep, ?_⟩
      rcases hnext : tree.get? next with _ | (_ | content)
      · rw [makeDirectories_of_absent hstep hnext] at h
        exact ih (isDirectory_put hnext) h
      · rw [makeDirectories_of_directory hstep hnext] at h
        exact ih (isDirectory_iff.2 hnext) h
      · exact nomatch (makeDirectories_of_file hstep hnext).symm.trans h

theorem furnished_makePath (tree : FileTree) (path : String) : tree.Furnished (tree.makePath path).2 := by
  rw [makePath]
  cases Place.ofPath? path with
  | none => exact .refl tree
  | some named => exact furnished_makeDirectories tree named.1 named.2

theorem makePath_makePath (tree : FileTree) (path : String) :
    (tree.makePath path).2.makePath path = tree.makePath path := by
  rw [makePath, makePath]
  cases Place.ofPath? path with
  | none => rfl
  | some named => exact makeDirectories_makeDirectories tree named.1 named.2

theorem content?_makePath (tree : FileTree) (path : String) (place : Place) :
    (tree.makePath path).2.content? place = tree.content? place := by
  refine Option.ext fun content => ?_
  rw [content?_eq_some, content?_eq_some, (furnished_makePath tree path).get?_eq_file_iff]

/-- Making directories may let a path lead to a file, but it takes no file away. -/
theorem read?_makePath {content : Content} (h : tree.read? path = some content) (directory : String) :
    (tree.makePath directory).2.read? path = some content := by
  rw [read?_eq_bind] at h ⊢
  obtain ⟨place, hplace, hcontent⟩ := Option.bind_eq_some_iff.1 h
  rw [follow?_mono (furnished_makePath tree directory).grows hplace]
  exact (content?_makePath tree directory place).trans hcontent

/-- If the directories of a path could be made, they are there in any tree with as many. -/
theorem makePath_of_grows (h : (tree.makePath path).1 = true) (hgrows : (tree.makePath path).2.Grows tree') :
    tree'.makePath path = (true, tree') := by
  rw [makePath] at h hgrows ⊢
  cases hnamed : Place.ofPath? path with
  | none =>
    rw [hnamed] at h
    cases h
  | some named =>
    obtain ⟨start, names⟩ := named
    rw [hnamed] at h hgrows
    have hstart : tree.isDirectory start = true := by
      refine isDirectory_of_isOuter tree ?_
      rw [Place.ofPath?] at hnamed
      split at hnamed
      · cases hnamed
      · obtain ⟨rfl, -⟩ := Prod.mk.inj (Option.some_inj.1 hnamed)
        split <;> rfl
    have hleads := leads_of_makeDirectories hstart (Prod.ext h rfl)
    exact (hleads.mono hgrows).makeDirectories

/-! ### Paths in a directory -/

/-- A name that leads from a directory to a place of that name. -/
structure IsName (name : String) : Prop where
  noSlash : '/' ∉ name.toList
  ne_empty : name ≠ ""
  ne_self : name ≠ "."
  ne_parent : name ≠ ".."

theorem pieces_append (separator : Char) (front back : List Char) :
    Text.pieces separator (front ++ separator :: back) =
      Text.pieces separator front ++ Text.pieces separator back := by
  induction front with
  | nil => simp [Text.pieces]
  | cons c front ih =>
    obtain ⟨first, rest, hpieces⟩ := List.exists_cons_of_ne_nil (Text.pieces_ne_nil separator front)
    rw [List.cons_append, Text.pieces, Text.pieces, ih, hpieces]
    split <;> rfl

theorem pieces_of_not_mem {separator : Char} {cs : List Char} (h : separator ∉ cs) :
    Text.pieces separator cs = [cs] := by
  induction cs with
  | nil => rfl
  | cons c cs ih =>
    obtain ⟨hc, hcs⟩ := not_or.1 (mt List.mem_cons.2 h)
    rw [Text.pieces, if_neg (Ne.symm hc), ih hcs]

theorem exists_pieces_join (directory : String) {name : String} (h : '/' ∉ name.toList) :
    ∃ before, Text.pieces '/' (FileName.join directory name).toList = before ++ [name.toList] := by
  have hhead : name.toList.head? ≠ some '/' := fun hh => h (List.mem_of_head? hh)
  rw [FileName.join, if_neg hhead]
  split
  · rename_i hend
    rcases Bool.or_eq_true_iff.1 hend with hempty | hslash
    · rw [String.isEmpty_iff.1 hempty, String.empty_append]
      exact ⟨[], pieces_of_not_mem h⟩
    · obtain ⟨front, hfront⟩ := List.getLast?_eq_some_iff.1 (of_decide_eq_true hslash)
      refine ⟨Text.pieces '/' front, ?_⟩
      rw [String.toList_append, hfront, List.append_assoc, List.singleton_append, pieces_append, pieces_of_not_mem h]
  · refine ⟨Text.pieces '/' directory.toList, ?_⟩
    rw [String.toList_append, String.toList_append, List.append_assoc]
    exact (pieces_append '/' directory.toList name.toList).trans (congrArg _ (pieces_of_not_mem h))

/-- The place to which a path in a directory leads is called by its last name. -/
theorem head?_of_follow?_join {directory name : String} (hname : IsName name)
    (h : tree.follow? (FileName.join directory name) = some place) : place.head? = some name := by
  obtain ⟨⟨start, names⟩, hstart, hnames⟩ := Option.bind_eq_some_iff.1 h
  have hlast : ∃ before, names = before ++ [name] := by
    rw [Place.ofPath?] at hstart
    split at hstart
    · cases hstart
    · obtain ⟨-, rfl⟩ := Prod.mk.inj (Option.some_inj.1 hstart)
      obtain ⟨before, hbefore⟩ := exists_pieces_join directory hname.noSlash
      exact ⟨before.map String.ofList, by rw [hbefore]; simp⟩
  obtain ⟨before, rfl⟩ := hlast
  replace hnames : (before ++ [name]).foldlM tree.step? start = some place := hnames
  rw [List.foldlM_append] at hnames
  obtain ⟨between, -, hstep⟩ := Option.bind_eq_some_iff.1 hnames
  rw [List.foldlM_cons] at hstep
  obtain ⟨next, hlast, hend⟩ := Option.bind_eq_some_iff.1 hstep
  obtain rfl : next = place := Option.some_inj.1 hend
  have hd := isDirectory_of_step? hlast
  simp only [step?, hd, hname.ne_empty, hname.ne_self, hname.ne_parent] at hlast
  split at hlast
  · cases hlast
  · rw [← Option.some_inj.1 hlast]
    rfl

end FileTree

end Unnest
