import Unnest.Proofs.CommandLine.Names
import Unnest.Proofs.CommandLine.Runs

/-!
# What is left of the files of a run

A run that exits with success has stored every file that its inputs are made into (`forall₂_deposit`), each at the
place of its path. If two files have one path, the later takes the place of the earlier, and nothing is said about
it: inputs in different directories may have names of which nothing but the stem counts (`output_kept_fails`). So
what is there in the end is the last file of every path, and all of the files if their paths are different
(`output_kept`).
-/

namespace Unnest.CommandLine

section
variable {made : Bool × FileTree}

/-- A file is stored at the place of its path. -/
structure At (made : Bool × FileTree) (file : String × Content) (stored : Place × Content) : Prop where
  place : slot? made file.1 = some stored.1
  content : stored.2 = file.2

theorem forall₂_deposit {files : List (String × Content)} (h : (deposit made files).1 = .ok ()) :
    List.Forall₂ (At made) files (deposit made files).2 := by
  induction files with
  | nil => exact .nil
  | cons file rest ih =>
    rw [deposit] at h ⊢
    cases hslot : slot? made file.1 with
    | none =>
      rw [hslot] at h
      cases h
    | some place =>
      rw [hslot] at h
      exact .cons ⟨hslot, rfl⟩ (ih h)

theorem exists_slot_of_forall₂ {files : List (String × Content)} {stored : List (Place × Content)}
    (h : List.Forall₂ (At made) files stored) {file : String × Content} (hfile : file ∈ files) :
    ∃ place, slot? made file.1 = some place := by
  induction h with
  | nil => exact nomatch hfile
  | cons hfirst _ ih =>
    rcases List.mem_cons.1 hfile with rfl | hfile
    · exact ⟨_, hfirst.place⟩
    · exact ih hfile

theorem last?_of_forall₂ {directory : String} {files : List (String × Content)} {stored : List (Place × Content)}
    (h : List.Forall₂ (At made) files stored) (hwithin : ∀ file ∈ files, Within directory file.1) {path : String}
    (hpath : Within directory path) {place : Place} (hplace : slot? made path = some place) :
    Entries.last? stored place = Entries.last? files path := by
  induction h with
  | nil => rfl
  | @cons file at' files stored hfile hrest ih =>
    obtain ⟨hfirst, hfiles⟩ := List.forall_mem_cons.1 hwithin
    have hsame : at'.1 = place ↔ file.1 = path := by
      constructor
      · rintro rfl
        exact hfirst.eq_of_follow? hpath (slot?_eq_some.1 hfile.place).2.1 (slot?_eq_some.1 hplace).2.1
      · rintro rfl
        exact Option.some_inj.1 (hfile.place.symm.trans hplace)
    rw [Entries.last?_cons, Entries.last?_cons, ih hfiles, hfile.content]
    simp only [hsame]

/-- Once files are laid over the tree, a path leads to the last file for it. -/
theorem read?_overlay_of_forall₂ {directory : String} {files : List (String × Content)}
    {stored : List (Place × Content)} (h : List.Forall₂ (At made) files stored) (hfits : made.2.Fits stored)
    (hwithin : ∀ file ∈ files, Within directory file.1) {file : String × Content} (hfile : file ∈ files) :
    (made.2.overlay stored).read? file.1 = Entries.last? files file.1 := by
  obtain ⟨place, hslot⟩ := exists_slot_of_forall₂ h hfile
  obtain ⟨-, hplace, -⟩ := slot?_eq_some.1 hslot
  have hsome : (Entries.last? files file.1).isSome := Entries.last?_isSome_iff.2 (List.mem_map_of_mem hfile)
  rw [FileTree.read?_overlay hfits, hplace, Option.bind_some, last?_of_forall₂ h hwithin (hwithin file hfile) hslot,
    Option.or_of_isSome hsome]

end

section
variable {arguments : Arguments} {flatten : List (Frame Float) → List (Frame Float)} {inputs : List String}
  {tree : FileTree} {made : Bool × FileTree}

theorem exists_files_of_outcomes {delivered : List Delivery}
    (h : ∀ delivery ∈ delivered, Delivery.outcome made delivery = .ok ()) :
    ∃ files : List (List (String × Content)), delivered = files.map .ok ∧
      List.Forall₂ (At made) files.flatten (delivered.flatMap (Delivery.stores made)) := by
  induction delivered with
  | nil => exact ⟨[], rfl, .nil⟩
  | cons delivery delivered ih =>
    obtain ⟨hfirst, hrest⟩ := List.forall_mem_cons.1 h
    obtain ⟨rest, hdelivered, hstored⟩ := ih hrest
    cases delivery with
    | error error => cases hfirst
    | ok files =>
      refine ⟨files :: rest, by rw [hdelivered, List.map_cons], ?_⟩
      rw [List.flatten_cons, List.flatMap_cons]
      exact List.rel_append (forall₂_deposit hfirst) hstored

end

/-- After a run with success, what is there at the path of an output is the last file for that path. So all files
are there if no two of them have one path. -/
theorem output_kept (settings : Settings) (day : String) (arguments : Arguments) (tree left : FileTree) (inputs : Nat)
    (hrun : (runWith settings day arguments : StateM FileTree Outcome) tree = (.complete inputs 0, left)) :
    ∃ files : List (List (String × Content)),
      deliveries arguments (flattened settings arguments) arguments.inputs (logged settings day tree) = files.map .ok ∧
      (∀ file ∈ files.flatten, left.read? file.1 = Entries.last? files.flatten file.1) ∧
      ((files.flatten.map Prod.fst).Nodup → ∀ file ∈ files.flatten, left.read? file.1 = some file.2) := by
  obtain ⟨hzero, hleft⟩ := runWith_complete hrun
  obtain ⟨hsettle, hstored⟩ :=
    settleAll_eq arguments (flattened settings arguments) arguments.inputs (logged settings day tree)
  rw [hsettle] at hzero hleft
  obtain ⟨files, hfiles, hat⟩ := exists_files_of_outcomes fun delivery hdelivery =>
    failures_eq_zero.1 hzero.symm _ (List.mem_map_of_mem hdelivery)
  have hwithin : ∀ file ∈ files.flatten, Within arguments.outputDirectory file.1 := by
    intro file hfile
    obtain ⟨delivered, hdelivered, hfile⟩ := List.mem_flatten.1 hfile
    exact within_deliveries (hfiles ▸ List.mem_map_of_mem hdelivered) file hfile
  have hlast : ∀ file ∈ files.flatten, left.read? file.1 = Entries.last? files.flatten file.1 := by
    intro file hfile
    have hentered : (deliveries arguments (flattened settings arguments) arguments.inputs
        (logged settings day tree)).any Delivery.enters = true := by
      by_contra hidle
      have hlength := hat.length_eq
      rw [hstored.idle (Bool.eq_false_iff.2 hidle)] at hlength
      exact List.ne_nil_of_mem hfile (List.length_eq_zero_iff.1 hlength)
    rw [hleft, hentered]
    exact read?_overlay_of_forall₂ hat hstored.fits hwithin hfile
  refine ⟨files, hfiles, hlast, fun hnodup file hfile => ?_⟩
  rw [hlast file hfile, Entries.last?_eq_get? hnodup]
  exact (Entries.mem_iff_get? hnodup).1 hfile

/-- An input in one directory and two in another, one of them of the same name. -/
def namesakes : FileTree :=
  .ofFiles [("a/in.json", .bytes "[]".toUTF8),
    ("b/in.json", .bytes "[\x7b\"name\":\"f\",\"columns\":[]\x7d]".toUTF8), ("b/on.json", .bytes "[]".toUTF8)]

theorem output_kept_namesakes :
    let result := (runWith {} "2024-01-01" { inputs := ["a/in.json", "b/on.json"], format := .json } :
      StateM FileTree Outcome) namesakes
    result = (.complete 2 0, result.2) ∧ ∃ files : List (String × Content),
      files.map Prod.fst = ["out/in.flat.json", "out/on.flat.json"] ∧
        ∀ file ∈ files, result.2.read? file.1 = some file.2 := by
  intro result
  have houtcome : result.1 = .complete 2 0 := by decide +kernel
  have hrun : result = (.complete 2 0, result.2) := by
    generalize result = found at houtcome
    exact Prod.ext houtcome rfl
  obtain ⟨files, hfiles, -, hkept⟩ := output_kept {} "2024-01-01" _ namesakes result.2 2 hrun
  have hpaths : files.flatten.map Prod.fst = ["out/in.flat.json", "out/on.flat.json"] := by
    have hdelivered := congrArg (List.flatMap fun delivery => (delivery.toOption.getD []).map Prod.fst) hfiles
    rw [List.flatMap_map] at hdelivered
    rw [List.map_flatten, ← List.flatMap_def]
    refine hdelivered.symm.trans ?_
    decide +kernel
  refine ⟨hrun, files.flatten, hpaths, hkept ?_⟩
  rw [hpaths]
  decide

/-- There is one file for two inputs, and the run ends with success. -/
theorem output_kept_fails :
    let arguments := ["--threads", "1", "--format", "json", "a/in.json", "b/in.json"]
    let result := (run .standard "2024-01-01" [] arguments : StateM FileTree Outcome) namesakes
    result.1.exitCode = 0 ∧ ["a/in.json", "b/in.json"].Nodup ∧
      (result.2.files.map Prod.fst).filter (fun path => path.endsWith ".flat.json") = ["out/in.flat.json"] ∧
      (result.2.read? "out/in.flat.json").map Content.toBytes =
        some (Frame.renderFile [{ name := "f", columns := [] }]).toUTF8 := by
  decide +kernel

end Unnest.CommandLine
