import Unnest.CommandLine.Input
import Unnest.Proofs.Files.Tree
import Unnest.Proofs.Flatten.Extends
import Unnest.Proofs.Frame.RoundTrip
import Unnest.Proofs.Table

/-!
# What an input is made into

In a tree of files an input holds frames, or there is a reason why it holds none (`held`); that depends only on
what its path leads to. Frames are made into files, each a path and a content (`outputs`), and storing files one
after another (`store`) is all that writing frames does, provided that they are tables (`writeOutput_apply`).
Flattened frames of an input are: they have been validated, and flattening keeps the columns equally long
(`table_flattenAll`). So flattening an input is storing what it is made into (`flattenInput_apply`), and no frame
is ever refused for uneven columns (`tables_hold`).
-/

namespace Unnest.CommandLine
open Text
variable {α β σ : Type}

/-- Work on a tree of files that may come to nothing. -/
abbrev Effort := ExceptT InputError (StateM FileTree)

def framesOf : Option ByteArray → Except InputError (List (Frame Float))
  | none => .error .unreadable
  | some content =>
    match Frame.parseFile content with
    | .ok frames => .ok frames
    | .error (.json failure) => .error (.malformed failure.fault (failure.position (Symbol.ofBytes content)))
    | .error (.frame error) => .error (.invalid error)

/-- The frames that an input holds, or why there are none. -/
def held (tree : FileTree) (input : String) : Except InputError (List (Frame Float)) :=
  framesOf ((tree.read? input).map Content.toBytes)

/-- The file for a frame, which has a place among the frames of its input. -/
def tableFile (directory stem : String) (index : Nat) (frame : Frame Float) : String × Content :=
  (FileName.tablePath directory stem index frame.name, .table (Table.ofFrame frame).stored)

/-- The files for frames, the first of which has a place among the frames of its input. -/
def tableFiles (directory stem : String) : (index : Nat) → List (Frame Float) → List (String × Content)
  | _, [] => []
  | index, frame :: rest => tableFile directory stem index frame :: tableFiles directory stem (index + 1) rest

/-- The file for all frames of an input. -/
def framesFile (directory stem : String) (frames : List (Frame Float)) : String × Content :=
  (FileName.framesPath directory stem, .bytes (Frame.renderFile frames).toUTF8)

/-- The files that the frames of an input are made into. -/
def outputs (arguments : Arguments) (input : String) (frames : List (Frame Float)) : List (String × Content) :=
  match arguments.format with
  | .json => [framesFile arguments.outputDirectory (FileName.stem input) frames]
  | .parquet => tableFiles arguments.outputDirectory (FileName.stem input) 0 frames

def storeFile (directory : String) (file : String × Content) (tree : FileTree) : Except InputError Unit × FileTree :=
  match tree.makePath directory with
  | (false, made) => (.error (.unwritable file.1), made)
  | (true, made) =>
    match made.write? file.1 file.2 with
    | none => (.error (.unwritable file.1), made)
    | some written => (.ok (), written)

/-- Stores files one after another until one cannot be stored. -/
def store (directory : String) : List (String × Content) → FileTree → Except InputError Unit × FileTree
  | [], tree => (.ok (), tree)
  | file :: files, tree =>
    match storeFile directory file tree with
    | (.ok (), stored) => store directory files stored
    | (.error error, left) => (.error error, left)

section
variable (tree : FileTree)

theorem bind_apply (action : Effort α) (next : α → Effort β) : (action >>= next) tree =
    match action tree with
    | (.ok a, tree) => next a tree
    | (.error error, tree) => (.error error, tree) := by
  show (match action tree with | (outcome, tree) => ExceptT.bindCont next outcome tree) = _
  rcases action tree with ⟨_ | _, _⟩ <;> rfl

theorem lift_bind_apply (action : StateM FileTree α) (next : α → Effort β) :
    ((liftM action : Effort α) >>= next) tree = next (action tree).1 (action tree).2 := rfl

theorem require_apply (path : String) (action : StateM FileTree Bool) : (require path action : Effort Unit) tree =
    if (action tree).1 then (.ok (), (action tree).2) else (.error (.unwritable path), (action tree).2) := by
  rw [require, lift_bind_apply]
  split <;> rfl

theorem readInput_apply (input : String) : (readInput input : Effort _) tree = (held tree input, tree) := by
  have hread : (FileAccess.read input : StateM FileTree _) tree = ((tree.read? input).map Content.toBytes, tree) := rfl
  rw [readInput, lift_bind_apply, hread, held]
  cases tree.read? input with
  | none => rfl
  | some content =>
    dsimp only [Option.map]
    rw [framesOf]
    rcases Frame.parseFile content.toBytes with (_ | _) | _ <;> rfl

theorem write_apply (directory : String) (file : String × Content) (rest : Effort Unit) :
    (do
      require file.1 (FileAccess.makeDirectories directory)
      require file.1 (FileAccess.write file.1 file.2)
      rest : Effort Unit) tree =
    match storeFile directory file tree with
    | (.ok (), stored) => rest stored
    | (.error error, left) => (.error error, left) := by
  rw [bind_apply, require_apply, storeFile]
  have hmake : (FileAccess.makeDirectories directory : StateM FileTree Bool) tree = tree.makePath directory := rfl
  rw [hmake]
  rcases tree.makePath directory with ⟨_ | _, made⟩
  · rfl
  · have hwrite : (FileAccess.write file.1 file.2 : StateM FileTree Bool) made =
      made.attempt (made.write? file.1 file.2) := rfl
    dsimp only [if_true]
    rw [if_pos rfl]
    dsimp only
    rw [bind_apply, require_apply, hwrite]
    cases made.write? file.1 file.2 <;> rfl

theorem writeFrames_apply (directory stem : String) (frames : List (Frame Float)) :
    (writeFrames directory stem frames : Effort Unit) tree =
      store directory [framesFile directory stem frames] tree := by
  refine (write_apply tree directory (framesFile directory stem frames) _).trans ?_
  rw [store]
  rcases storeFile directory (framesFile directory stem frames) tree with ⟨_ | _, _⟩ <;> rfl

theorem writeTable_apply {frame : Frame Float} (heven : Table.ofFrame? frame = .ok (Table.ofFrame frame))
    (directory stem : String) (index : Nat) : (writeTable directory stem index frame : Effort Unit) tree =
      storeFile directory (tableFile directory stem index frame) tree := by
  rw [writeTable, heven]
  refine (write_apply tree directory (tableFile directory stem index frame) _).trans ?_
  rcases storeFile directory (tableFile directory stem index frame) tree with ⟨_ | _, _⟩ <;> rfl

theorem writeTables_apply (directory stem : String) (index : Nat) {frames : List (Frame Float)}
    (heven : ∀ frame ∈ frames, Table.ofFrame? frame = .ok (Table.ofFrame frame)) :
    (writeTables directory stem index frames : Effort Unit) tree =
      store directory (tableFiles directory stem index frames) tree := by
  induction frames generalizing index tree with
  | nil => rfl
  | cons frame frames ih =>
    rw [writeTables, bind_apply, writeTable_apply tree (heven frame List.mem_cons_self), tableFiles, store]
    rcases storeFile directory (tableFile directory stem index frame) tree with ⟨_ | _, stored⟩
    · rfl
    · exact ih stored (index + 1) fun frame h => heven frame (List.mem_cons_of_mem _ h)

theorem writeOutput_apply (arguments : Arguments) (input : String) {frames : List (Frame Float)}
    (heven : ∀ frame ∈ frames, Table.ofFrame? frame = .ok (Table.ofFrame frame)) :
    (writeOutput arguments (FileName.stem input) frames : Effort Unit) tree =
      store arguments.outputDirectory (outputs arguments input frames) tree := by
  rw [writeOutput, outputs]
  cases arguments.format with
  | json => exact writeFrames_apply tree _ _ frames
  | parquet => exact writeTables_apply tree _ _ 0 heven

end

theorem step_apply (action : StateM FileTree α) (next : α → StateM FileTree β) (tree : FileTree) :
    (action >>= next) tree = next (action tree).1 (action tree).2 := rfl

theorem forM_report_apply (events : List Event) (tree : FileTree) :
    (events.forM FileAccess.report : StateM FileTree _) tree = ((), tree) := by
  induction events with
  | nil => rfl
  | cons event events ih => exact ih

theorem runSession_apply (session : Session σ α) (state : σ) (tree : FileTree) :
    (runSession session state : StateM FileTree _) tree = ((session state).value, tree) := by
  rw [runSession, step_apply, forM_report_apply]
  rfl

theorem table_flattenAll {content : ByteArray} {frames : List (Frame Float)}
    (h : Frame.parseFile content = .ok frames) (describer : Describer σ) (options : Options) (assetId : String)
    (state : σ) : ∀ frame ∈ (Frame.flattenAll describer options assetId frames state).value.1,
      Table.ofFrame? frame = .ok (Table.ofFrame frame) := by
  have hvalid := Frame.validateAll_eq_ok.1 (Frame.parseFile_eq_ok.1 h).2
  intro frame hframe
  obtain ⟨source, hsource, rfl⟩ :=
    List.mem_map.1 (Frame.value_flattenAll describer options assetId frames state ▸ hframe)
  exact Table.ofFrame?_of_validate ((Frame.extends_flatten source _ options).validate (hvalid source hsource))

theorem exists_parseFile_of_framesOf {content : Option ByteArray} {frames : List (Frame Float)}
    (h : framesOf content = .ok frames) : ∃ bytes, Frame.parseFile bytes = .ok frames := by
  cases content with
  | none => cases h
  | some bytes =>
    refine ⟨bytes, ?_⟩
    rw [framesOf] at h
    split at h
    · rename_i found hfound
      cases h
      exact hfound
    · cases h
    · cases h

theorem framesOf_ne_noTable (content : Option ByteArray) (error : TableError) :
    framesOf content ≠ .error (.noTable error) := by
  cases content with
  | none => nofun
  | some bytes =>
    rw [framesOf]
    split <;> nofun

theorem flattenInput_apply (describer : Describer σ) (options : Options) (arguments : Arguments) (input : String)
    (state : σ) (tree : FileTree) :
    (flattenInput describer options arguments input state : StateM FileTree _) tree =
      match held tree input with
      | .error error => ((.error error, state), tree)
      | .ok frames =>
        let flattened := (Frame.flattenAll describer options arguments.assetId frames state).value
        let (outcome, left) := store arguments.outputDirectory (outputs arguments input flattened.1) tree
        ((outcome, flattened.2), left) := by
  have hread : ((readInput input : Effort _).run : StateM FileTree _) tree = (held tree input, tree) :=
    readInput_apply tree input
  rw [flattenInput, step_apply, hread]
  cases hheld : held tree input with
  | error error => rfl
  | ok frames =>
    obtain ⟨content, hcontent⟩ := exists_parseFile_of_framesOf hheld
    have hwrite := writeOutput_apply tree arguments input
      (table_flattenAll hcontent describer options arguments.assetId state)
    dsimp only
    rw [step_apply, runSession_apply, ← hwrite]
    generalize (Frame.flattenAll describer options arguments.assetId frames state).value = flattened
    rfl

theorem store_ne_noTable (directory : String) (files : List (String × Content)) (tree : FileTree)
    (error : TableError) : (store directory files tree).1 ≠ .error (.noTable error) := by
  induction files generalizing tree with
  | nil => nofun
  | cons file files ih =>
    rw [store]
    cases hfile : storeFile directory file tree with
    | mk outcome stored =>
      cases outcome with
      | ok done => exact ih stored
      | error reason =>
        rintro ⟨⟩
        rw [storeFile] at hfile
        split at hfile
        · cases hfile
        · split at hfile <;> cases hfile

theorem tables_hold (describer : Describer σ) (options : Options) :
    (∀ frame : Frame Float, ((∃ table, Table.ofFrame? frame = .ok table) ↔
        ∀ a ∈ frame.columns, ∀ b ∈ frame.columns, a.length = b.length) ∧
      ∀ table, Table.ofFrame? frame = .ok table → table.Holds frame) ∧
    (∀ (content : ByteArray) (frames : List (Frame Float)), Frame.parseFile content = .ok frames →
      ∀ (assetId : String) (state : σ),
        ∀ frame ∈ (Frame.flattenAll describer options assetId frames state).value.1,
          ∃ table, Table.ofFrame? frame = .ok table) ∧
    ∀ (arguments : Arguments) (input : String) (state : σ) (tree : FileTree) (error : TableError),
      ((flattenInput describer options arguments input state : StateM FileTree _) tree).1.1 ≠
        .error (.noTable error) := by
  refine ⟨fun frame => ⟨?_, ?_⟩, ?_, ?_⟩
  · rw [← Table.forall_length_iff]
    exact ⟨fun ⟨table, h⟩ => (Table.ofFrame?_eq_ok.1 h).1, fun h => ⟨_, Table.ofFrame?_eq_ok.2 ⟨h, rfl⟩⟩⟩
  · intro table h
    rw [(Table.ofFrame?_eq_ok.1 h).2]
    exact Table.holds_ofFrame frame
  · intro content frames h assetId state frame hframe
    exact ⟨_, table_flattenAll h describer options assetId state frame hframe⟩
  · intro arguments input state tree error
    rw [flattenInput_apply]
    cases hheld : held tree input with
    | error reason =>
      rintro ⟨⟩
      exact framesOf_ne_noTable _ error hheld
    | ok frames => exact store_ne_noTable _ _ tree error

end Unnest.CommandLine
