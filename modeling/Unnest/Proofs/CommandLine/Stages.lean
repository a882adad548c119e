import Unnest.Proofs.CommandLine.Storing
import Unnest.Proofs.Files.Overlay

/-!
# Stages of a run

A run changes nothing in a tree but that the output directory is made, when the first file is to be stored there,
and that files are laid over the tree that has it. So at every stage the tree is told by the files that have been
stored so far and where (`staged`). What comes of further files then does not depend on the stage: it is decided by
the tree in which the directory has been made (`deposit`, `Stored.store_staged`). The same holds of inputs one after
another, once it is known what each of them is made into when its turn comes (`Stored.settleAll_staged`).
-/

namespace Unnest.CommandLine

/-- The place for a file in the tree with its directory, if that could be made. -/
def slot? (made : Bool × FileTree) (path : String) : Option Place :=
  if made.1 then made.2.vacant? path else none

/-- What comes of files: whether all are stored, and those that are, at their places. -/
def deposit (made : Bool × FileTree) : List (String × Content) → Except InputError Unit × List (Place × Content)
  | [] => (.ok (), [])
  | file :: rest =>
    match slot? made file.1 with
    | none => (.error (.unwritable file.1), [])
    | some place => ((deposit made rest).1, (place, file.2) :: (deposit made rest).2)

/-- The tree once files have been stored in a directory. At first the directory has not been asked for. -/
def staged (tree : FileTree) (made : Bool × FileTree) (entered : Bool) (files : List (Place × Content)) : FileTree :=
  if entered then made.2.overlay files else tree

/-- What is true of the files that have been stored. -/
structure Stored (directory : String) (tree : FileTree) (made : Bool × FileTree) (entered : Bool)
    (files : List (Place × Content)) : Prop where
  makePath : tree.makePath directory = made
  fits : made.2.Fits files
  idle : entered = false → files = []
  blocked : made.1 = false → files = []

section
variable {made : Bool × FileTree} {path : String} {place : Place}

theorem slot?_eq_some : slot? made path = some place ↔
    made.1 = true ∧ made.2.follow? path = some place ∧ made.2.isDirectory place = false := by
  rw [slot?, ← FileTree.vacant?_eq_some]
  split
  · rename_i hmade
    rw [hmade, eq_self, true_and]
  · rename_i hmade
    exact iff_of_false nofun fun h => hmade h.1

/-- What is stored at a place comes from a file whose path leads there. -/
theorem exists_of_mem_deposit {files : List (String × Content)} {content : Content}
    (h : (place, content) ∈ (deposit made files).2) :
    ∃ path, (path, content) ∈ files ∧ slot? made path = some place := by
  induction files with
  | nil => exact nomatch h
  | cons file rest ih =>
    rw [deposit] at h
    cases hslot : slot? made file.1 with
    | none =>
      rw [hslot] at h
      exact nomatch h
    | some first =>
      rw [hslot] at h
      rcases List.mem_cons.1 h with hfirst | hrest
      · obtain ⟨rfl, rfl⟩ := Prod.mk.inj hfirst
        exact ⟨file.1, List.mem_cons_self, hslot⟩
      · obtain ⟨path, hpath, hplace⟩ := ih hrest
        exact ⟨path, List.mem_cons_of_mem _ hpath, hplace⟩

end

namespace Stored
variable {directory : String} {tree : FileTree} {made : Bool × FileTree} {entered : Bool}
  {files : List (Place × Content)}

theorem start (directory : String) (tree : FileTree) : Stored directory tree (tree.makePath directory) false [] :=
  ⟨rfl, nofun, fun _ => rfl, fun _ => rfl⟩

theorem makePath_staged (h : Stored directory tree made entered files) :
    (staged tree made entered files).makePath directory = (made.1, made.2.overlay files) := by
  obtain rfl := h.makePath
  cases hentered : entered with
  | false =>
    rw [h.idle hentered]
    rfl
  | true =>
    show ((tree.makePath directory).2.overlay files).makePath directory = _
    cases hmade : (tree.makePath directory).1 with
    | false =>
      rw [h.blocked hmade]
      exact (FileTree.makePath_makePath tree directory).trans (Prod.ext hmade rfl)
    | true =>
      -- the directory is there, and files that are laid over it do not take it away
      refine FileTree.makePath_of_grows hmade fun place hplace => ?_
      rw [FileTree.isDirectory_overlay h.fits, hplace]

theorem storeFile_staged (h : Stored directory tree made entered files) (file : String × Content) :
    storeFile directory file (staged tree made entered files) =
      match slot? made file.1 with
      | none => (.error (.unwritable file.1), staged tree made true files)
      | some place => (.ok (), staged tree made true (files ++ [(place, file.2)])) := by
  rw [storeFile, h.makePath_staged, slot?]
  cases made.1 with
  | false => rfl
  | true =>
    dsimp only
    rw [FileTree.write?_eq_map, FileTree.vacant?_overlay h.fits, if_pos rfl]
    cases made.2.vacant? file.1 with
    | none => rfl
    | some place =>
      have hlaid : (made.2.overlay files).put place (.file file.2) =
          staged tree made true (files ++ [(place, file.2)]) := by
        rw [staged, if_pos rfl, FileTree.overlay_append]
        rfl
      exact congrArg (Prod.mk (Except.ok ())) hlaid

theorem concat (h : Stored directory tree made entered files) {path : String} {place : Place}
    (hslot : slot? made path = some place) (content : Content) :
    Stored directory tree made true (files ++ [(place, content)]) := by
  obtain ⟨hmade, -, hplace⟩ := slot?_eq_some.1 hslot
  refine ⟨h.makePath, h.fits.append ?_, nofun, fun hblocked => nomatch hmade.symm.trans hblocked⟩
  intro file hfile
  obtain rfl := List.mem_singleton.1 hfile
  exact hplace

/-- Storing goes on from any stage in the same way. -/
theorem store_staged (h : Stored directory tree made entered files) (more : List (String × Content)) :
    store directory more (staged tree made entered files) =
        ((deposit made more).1, staged tree made (entered || !more.isEmpty) (files ++ (deposit made more).2)) ∧
      Stored directory tree made (entered || !more.isEmpty) (files ++ (deposit made more).2) := by
  induction more generalizing entered files with
  | nil =>
    rw [deposit, List.append_nil, List.isEmpty_nil, Bool.not_true, Bool.or_false]
    exact ⟨rfl, h⟩
  | cons file more ih =>
    rw [store, h.storeFile_staged, deposit, List.isEmpty_cons, Bool.not_false, Bool.or_true]
    cases hslot : slot? made file.1 with
    | none =>
      rw [List.append_nil]
      exact ⟨rfl, h.makePath, h.fits, fun hidle => Bool.noConfusion hidle, h.blocked⟩
    | some place =>
      have hmore := ih (h.concat hslot file.2)
      rw [List.append_assoc, Bool.true_or] at hmore
      exact hmore

end Stored

/-- The files that an input is made into, or why there are none. -/
abbrev Delivery := Except InputError (List (String × Content))

namespace Delivery

def outcome (made : Bool × FileTree) : Delivery → Except InputError Unit
  | .error error => .error error
  | .ok files => (deposit made files).1

def stores (made : Bool × FileTree) : Delivery → List (Place × Content)
  | .error _ => []
  | .ok files => (deposit made files).2

/-- Whether there is something to be stored, so that the directory is asked for. -/
def enters : Delivery → Bool
  | .error _ => false
  | .ok files => !files.isEmpty

end Delivery

section
variable (arguments : Arguments) (flatten : List (Frame Float) → List (Frame Float))

/-- What an input is made into, with its frames flattened in some way. -/
def deliver (input : String) (tree : FileTree) : Delivery :=
  (held tree input).map fun frames => outputs arguments input (flatten frames)

def settle (input : String) (tree : FileTree) : Except InputError Unit × FileTree :=
  match deliver arguments flatten input tree with
  | .error error => (.error error, tree)
  | .ok files => store arguments.outputDirectory files tree

/-- What becomes of inputs one after another. -/
def settleAll : List String → FileTree → List (Except InputError Unit) × FileTree
  | [], tree => ([], tree)
  | input :: inputs, tree =>
    let (outcome, tree) := settle arguments flatten input tree
    let (outcomes, tree) := settleAll inputs tree
    (outcome :: outcomes, tree)

/-- What each input is made into when its turn comes. -/
def deliveries : List String → FileTree → List Delivery
  | [], _ => []
  | input :: inputs, tree =>
    deliver arguments flatten input tree :: deliveries inputs (settle arguments flatten input tree).2

end

namespace Stored
variable {arguments : Arguments} {flatten : List (Frame Float) → List (Frame Float)} {tree : FileTree}
  {made : Bool × FileTree} {entered : Bool} {files : List (Place × Content)}

theorem settle_staged (h : Stored arguments.outputDirectory tree made entered files) (input : String)
    {delivery : Delivery} (hdelivery : deliver arguments flatten input (staged tree made entered files) = delivery) :
    settle arguments flatten input (staged tree made entered files) =
        (Delivery.outcome made delivery,
          staged tree made (entered || Delivery.enters delivery) (files ++ Delivery.stores made delivery)) ∧
      Stored arguments.outputDirectory tree made (entered || Delivery.enters delivery)
        (files ++ Delivery.stores made delivery) := by
  rw [settle, hdelivery]
  cases delivery with
  | error error =>
    rw [Delivery.stores, Delivery.enters, Bool.or_false, List.append_nil]
    exact ⟨rfl, h⟩
  | ok more => exact h.store_staged more

theorem settleAll_staged (h : Stored arguments.outputDirectory tree made entered files) (inputs : List String)
    {delivered : List Delivery}
    (hdelivered : deliveries arguments flatten inputs (staged tree made entered files) = delivered) :
    settleAll arguments flatten inputs (staged tree made entered files) =
        (delivered.map (Delivery.outcome made),
          staged tree made (entered || delivered.any Delivery.enters)
            (files ++ delivered.flatMap (Delivery.stores made))) ∧
      Stored arguments.outputDirectory tree made (entered || delivered.any Delivery.enters)
        (files ++ delivered.flatMap (Delivery.stores made)) := by
  induction inputs generalizing entered files delivered with
  | nil =>
    obtain rfl := hdelivered
    rw [deliveries, List.flatMap_nil, List.append_nil, List.any_nil, Bool.or_false]
    exact ⟨rfl, h⟩
  | cons input inputs ih =>
    obtain ⟨hsettle, hstored⟩ := h.settle_staged input (rfl : deliver arguments flatten input _ = _)
    rw [deliveries, hsettle] at hdelivered
    obtain rfl := hdelivered
    obtain ⟨hrest, hstored'⟩ := ih hstored rfl
    rw [settleAll, hsettle]
    dsimp only
    rw [hrest, List.map_cons, List.any_cons, List.flatMap_cons, ← Bool.or_assoc, ← List.append_assoc]
    exact ⟨rfl, hstored'⟩

end Stored

section
variable (arguments : Arguments) (flatten : List (Frame Float) → List (Frame Float))

theorem settle_eq (input : String) (tree : FileTree) :
    let made := tree.makePath arguments.outputDirectory
    let delivery := deliver arguments flatten input tree
    settle arguments flatten input tree =
        (Delivery.outcome made delivery, staged tree made (Delivery.enters delivery) (Delivery.stores made delivery)) ∧
      Stored arguments.outputDirectory tree made (Delivery.enters delivery) (Delivery.stores made delivery) := by
  intro made delivery
  have hdelivery : deliver arguments flatten input (staged tree made false []) = delivery := rfl
  have hsettle := (Stored.start arguments.outputDirectory tree).settle_staged input hdelivery
  rw [Bool.false_or, List.nil_append] at hsettle
  exact hsettle

theorem settleAll_eq (inputs : List String) (tree : FileTree) :
    let made := tree.makePath arguments.outputDirectory
    let delivered := deliveries arguments flatten inputs tree
    settleAll arguments flatten inputs tree =
        (delivered.map (Delivery.outcome made),
          staged tree made (delivered.any Delivery.enters) (delivered.flatMap (Delivery.stores made))) ∧
      Stored arguments.outputDirectory tree made (delivered.any Delivery.enters)
        (delivered.flatMap (Delivery.stores made)) := by
  intro made delivered
  have hdelivered : deliveries arguments flatten inputs (staged tree made false []) = delivered := rfl
  have hsettle := (Stored.start arguments.outputDirectory tree).settleAll_staged inputs hdelivered
  rw [Bool.false_or, List.nil_append] at hsettle
  exact hsettle

end

end Unnest.CommandLine
