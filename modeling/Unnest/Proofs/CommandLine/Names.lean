import Unnest.Proofs.CommandLine.Stages
import Unnest.Proofs.FileName

/-!
# Paths of output files

The files of an input are called by names that lead nowhere but into the output directory (`within_outputs`), so
files with different paths are at different places (`Within.eq_of_follow?`). Their paths are known before the
frames are flattened (`outputPaths`, `paths_deliver`).
-/

namespace Unnest

namespace FileName

theorem slash_not_mem_ofPath (path : String) : '/' ∉ ofPath path := by
  intro h
  rw [ofPath, List.mem_reverse] at h
  simpa using List.mem_takeWhile_imp h

theorem mem_of_mem_split {name : List Char} {c : Char} (h : c ∈ (split name).1) : c ∈ name := by
  rw [split] at h
  split at h
  · exact h
  · exact h
  · rename_i point front _ hfront
    have hc : c ∈ name.reverse.dropWhile (· ≠ '.') := hfront ▸ List.mem_cons_of_mem _ (List.mem_reverse.1 h)
    exact List.mem_reverse.1 ((List.dropWhile_sublist _).mem hc)

theorem slash_not_mem_stem (path : String) : '/' ∉ (stem path).toList := by
  rw [stem, String.toList_ofList]
  exact fun h => slash_not_mem_ofPath path (mem_of_mem_split h)

/-- A name with an ending that is long enough is none of the names with a meaning of their own. -/
theorem isName_append {front back : String} (hfront : '/' ∉ front.toList) (hback : '/' ∉ back.toList)
    (hlength : 2 < back.length) : FileTree.IsName (front ++ back) := by
  have hne : ∀ other : String, other.length ≤ 2 → front ++ back ≠ other := by
    rintro other hother rfl
    rw [String.length_append] at hother
    omega
  refine ⟨?_, hne "" (by decide), hne "." (by decide), hne ".." (by decide)⟩
  rw [String.toList_append, List.mem_append]
  exact not_or.2 ⟨hfront, hback⟩

theorem isName_table (input : String) (index : Nat) (frame : String) : FileTree.IsName (table input index frame) := by
  refine isName_append (fun h => slash_not_mem_table input index frame ?_) (by decide) (by decide)
  rw [table, String.toList_append]
  exact List.mem_append_left _ h

end FileName

namespace CommandLine

/-- A path that joins a directory and a name in it. -/
def Within (directory path : String) : Prop := ∃ name, FileTree.IsName name ∧ path = FileName.join directory name

/-- Different paths in a directory lead to different places. -/
theorem Within.eq_of_follow? {tree : FileTree} {directory path path' : String} {place : Place}
    (h : Within directory path) (h' : Within directory path') (hplace : tree.follow? path = some place)
    (hplace' : tree.follow? path' = some place) : path = path' := by
  obtain ⟨name, hname, rfl⟩ := h
  obtain ⟨name', hname', rfl⟩ := h'
  have hhead := FileTree.head?_of_follow?_join hname hplace
  rw [FileTree.head?_of_follow?_join hname' hplace', Option.some_inj] at hhead
  rw [hhead]

theorem within_tableFiles {directory stem : String} {index : Nat} {frames : List (Frame Float)}
    {file : String × Content} (h : file ∈ tableFiles directory stem index frames) : Within directory file.1 := by
  induction frames generalizing index with
  | nil => exact nomatch h
  | cons frame frames ih =>
    rcases List.mem_cons.1 h with rfl | hrest
    · exact ⟨_, FileName.isName_table stem index frame.name, by rw [tableFile, FileName.tablePath]⟩
    · exact ih hrest

theorem within_outputs {arguments : Arguments} {input : String} {frames : List (Frame Float)}
    {file : String × Content} (h : file ∈ outputs arguments input frames) :
    Within arguments.outputDirectory file.1 := by
  rw [outputs] at h
  split at h
  · obtain rfl := List.mem_singleton.1 h
    refine ⟨FileName.stem input ++ ".flat.json", ?_, by rw [framesFile, FileName.framesPath]⟩
    exact FileName.isName_append (FileName.slash_not_mem_stem input) (by decide) (by decide)
  · exact within_tableFiles h

/-- The paths of the files that an input is made into. -/
def outputPaths (arguments : Arguments) (tree : FileTree) (input : String) : List String :=
  match held tree input with
  | .error _ => []
  | .ok frames => (outputs arguments input frames).map Prod.fst

theorem keys_tableFiles {directory stem : String} {index : Nat} {frames frames' : List (Frame Float)}
    (h : frames'.map Frame.name = frames.map Frame.name) :
    (tableFiles directory stem index frames').map Prod.fst = (tableFiles directory stem index frames).map Prod.fst := by
  induction frames generalizing index frames' with
  | nil =>
    rw [List.map_eq_nil_iff.1 h]
  | cons frame frames ih =>
    obtain ⟨frame', rest', rfl, hframe, hrest⟩ := List.map_eq_cons_iff.1 h
    rw [tableFiles, tableFiles, List.map_cons, List.map_cons, ih hrest, tableFile, tableFile, hframe]

theorem keys_outputs (arguments : Arguments) (input : String) {frames frames' : List (Frame Float)}
    (h : frames'.map Frame.name = frames.map Frame.name) :
    (outputs arguments input frames').map Prod.fst = (outputs arguments input frames).map Prod.fst := by
  rw [outputs, outputs]
  cases arguments.format with
  | json => rfl
  | parquet => exact keys_tableFiles h

section
variable {made : Bool × FileTree} {place : Place} {content : Content} {delivery : Delivery} {path : String}

def Delivery.paths : Delivery → List String
  | .error _ => []
  | .ok files => files.map Prod.fst

theorem Delivery.enters_of_mem_paths (h : path ∈ paths delivery) : enters delivery = true := by
  cases delivery with
  | error error => exact nomatch h
  | ok files =>
    cases files with
    | nil => exact nomatch h
    | cons file rest => rfl

/-- What is stored at a place comes from a file whose path leads there. -/
theorem Delivery.exists_of_mem_stores (h : (place, content) ∈ stores made delivery) :
    ∃ path ∈ paths delivery, made.2.follow? path = some place := by
  cases delivery with
  | error error => exact nomatch h
  | ok files =>
    obtain ⟨path, hpath, hslot⟩ := exists_of_mem_deposit h
    exact ⟨path, List.mem_map.2 ⟨_, hpath, rfl⟩, (slot?_eq_some.1 hslot).2.1⟩

end

section
variable {arguments : Arguments} {flatten : List (Frame Float) → List (Frame Float)} {tree : FileTree}
  {input path : String}

theorem deliver_eq_ok {files : List (String × Content)} : deliver arguments flatten input tree = .ok files ↔
    ∃ frames, held tree input = .ok frames ∧ files = outputs arguments input (flatten frames) := by
  rw [deliver]
  cases held tree input with
  | error error => exact ⟨nofun, nofun⟩
  | ok frames =>
    constructor
    · intro h
      exact ⟨frames, rfl, (Except.ok.inj h).symm⟩
    · rintro ⟨found, hfound, rfl⟩
      rw [Except.ok.inj hfound]
      rfl

theorem paths_deliver (hnames : ∀ frames, (flatten frames).map Frame.name = frames.map Frame.name) :
    Delivery.paths (deliver arguments flatten input tree) = outputPaths arguments tree input := by
  rw [deliver, outputPaths]
  cases held tree input with
  | error error => rfl
  | ok frames => exact keys_outputs arguments input (hnames frames)

theorem within_outputPaths (h : path ∈ outputPaths arguments tree input) : Within arguments.outputDirectory path := by
  rw [outputPaths] at h
  split at h
  · exact nomatch h
  · obtain ⟨file, hfile, rfl⟩ := List.mem_map.1 h
    exact within_outputs hfile

theorem within_deliveries {inputs : List String} {files : List (String × Content)}
    (h : .ok files ∈ deliveries arguments flatten inputs tree) :
    ∀ file ∈ files, Within arguments.outputDirectory file.1 := by
  induction inputs generalizing tree with
  | nil => exact nomatch h
  | cons input inputs ih =>
    rcases List.mem_cons.1 h with hfirst | hrest
    · obtain ⟨frames, -, rfl⟩ := deliver_eq_ok.1 hfirst.symm
      exact fun file hfile => within_outputs hfile
    · exact ih hrest

end

end CommandLine

end Unnest
