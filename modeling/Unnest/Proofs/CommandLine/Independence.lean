import Unnest.Proofs.CommandLine.Names
import Unnest.Proofs.CommandLine.Runs

/-!
# Inputs do not get in each other's way

Inputs are separate if no file that one of them is made into is a file of another, or an input (`Separate`). Then
every input is read as it was before the run, whatever has been stored (`deliveries_staged`), and the files of the
others are at other places than its own (`last?_storedFor`). So a run over separate inputs does for each of them what
a run over that input alone does, in whichever order it takes them (`independent`).
-/

namespace Unnest

namespace CommandLine

/-- Inputs that have nothing to do with each other's files. A path stands for a file of its own: an input that
cannot be read is not found through the output directory once that is made. -/
structure Separate (arguments : Arguments) (inputs : List String) (tree : FileTree) : Prop where
  absent : ∀ input ∈ inputs, tree.read? input = none →
    (tree.makePath arguments.outputDirectory).2.read? input = none
  outputs : inputs.Pairwise fun input other =>
    ∀ path ∈ outputPaths arguments tree input, path ∉ outputPaths arguments tree other
  inputs : ∀ input ∈ inputs, ∀ path ∈ outputPaths arguments tree input, ∀ other ∈ inputs,
    ∀ place, (tree.makePath arguments.outputDirectory).2.follow? path = some place →
      (tree.makePath arguments.outputDirectory).2.follow? other ≠ some place

namespace Separate
variable {arguments : Arguments} {inputs : List String} {tree : FileTree} {input : String}

theorem read?_eq (h : Separate arguments inputs tree) (hinput : input ∈ inputs) :
    (tree.makePath arguments.outputDirectory).2.read? input = tree.read? input := by
  cases hread : tree.read? input with
  | none => exact h.absent input hinput hread
  | some content => exact FileTree.read?_makePath hread _

theorem perm (h : Separate arguments inputs tree) {order : List String} (horder : order.Perm inputs) :
    Separate arguments order tree := by
  refine ⟨fun input hinput => h.absent input (horder.subset hinput), ?_, ?_⟩
  · refine (horder.pairwise_iff ?_).2 h.outputs
    intro input other hapart path hpath hpath'
    exact hapart path hpath' hpath
  · exact fun input hinput path hpath other hother =>
      h.inputs input (horder.subset hinput) path hpath other (horder.subset hother)

end Separate

/-- What an input is made into does not depend on what else is to be read. -/
theorem deliver_congr {arguments : Arguments} {flatten : List (Frame Float) → List (Frame Float)} {input : String}
    {tree tree' : FileTree} (h : tree'.read? input = tree.read? input) :
    deliver arguments flatten input tree' = deliver arguments flatten input tree := by
  rw [deliver, deliver, held, held, h]

/-- The files that are stored for an input if it is alone, at their places. -/
def storedFor (arguments : Arguments) (flatten : List (Frame Float) → List (Frame Float)) (tree : FileTree)
    (input : String) : List (Place × Content) :=
  Delivery.stores (tree.makePath arguments.outputDirectory) (deliver arguments flatten input tree)

section
variable {arguments : Arguments} {flatten : List (Frame Float) → List (Frame Float)} {tree : FileTree}
  {made : Bool × FileTree} {entered : Bool} {files : List (Place × Content)}

theorem exists_outputPath (hnames : ∀ frames, (flatten frames).map Frame.name = frames.map Frame.name)
    {input : String} {file : Place × Content}
    (h : file ∈ Delivery.stores made (deliver arguments flatten input tree)) :
    ∃ path ∈ outputPaths arguments tree input, made.2.follow? path = some file.1 := by
  rw [← paths_deliver hnames]
  exact Delivery.exists_of_mem_stores h

theorem Stored.read?_staged (h : Stored arguments.outputDirectory tree made entered files) {input : String}
    (hsettled : made.2.read? input = tree.read? input)
    (hfiles : ∀ file ∈ files, made.2.follow? input ≠ some file.1) :
    (staged tree made entered files).read? input = tree.read? input := by
  cases entered with
  | false => rfl
  | true =>
    rw [← hsettled, FileTree.read?_eq_bind made.2]
    refine (FileTree.read?_overlay h.fits input).trans (Option.bind_congr fun place hplace => ?_)
    have hnone : Entries.last? files place = none := by
      rw [Entries.last?_eq_none_iff]
      intro hkey
      obtain ⟨file, hfile, rfl⟩ := List.mem_map.1 hkey
      exact hfiles file hfile hplace
    rw [hnone, Option.none_or]

theorem Stored.content?_staged (h : Stored arguments.outputDirectory tree made entered files) (place : Place) :
    (staged tree made entered files).content? place = (Entries.last? files place).or (tree.content? place) := by
  cases hentered : entered with
  | false =>
    rw [h.idle hentered]
    rfl
  | true =>
    refine (FileTree.content?_overlay h.fits place).trans ?_
    rw [← h.makePath, FileTree.content?_makePath]

/-- Every input of separate ones is made into what it would be made into first. -/
theorem Stored.deliveries_staged (h : Stored arguments.outputDirectory tree made entered files)
    (hnames : ∀ frames, (flatten frames).map Frame.name = frames.map Frame.name) {inputs : List String}
    (hsettled : ∀ input ∈ inputs, made.2.read? input = tree.read? input)
    (hapart : ∀ input ∈ inputs, ∀ path ∈ outputPaths arguments tree input, ∀ other ∈ inputs,
      ∀ place, made.2.follow? path = some place → made.2.follow? other ≠ some place)
    (hfiles : ∀ file ∈ files, ∀ input ∈ inputs, made.2.follow? input ≠ some file.1) :
    deliveries arguments flatten inputs (staged tree made entered files) =
      inputs.map fun input => deliver arguments flatten input tree := by
  induction inputs generalizing entered files with
  | nil => rfl
  | cons input inputs ih =>
    have hdeliver : deliver arguments flatten input (staged tree made entered files) =
        deliver arguments flatten input tree := by
      refine deliver_congr (h.read?_staged (hsettled input List.mem_cons_self) ?_)
      exact fun file hfile => hfiles file hfile input List.mem_cons_self
    obtain ⟨hsettle, hstored⟩ := h.settle_staged input hdeliver
    rw [deliveries, hdeliver, hsettle, List.map_cons]
    refine congrArg _ (ih hstored ?_ ?_ ?_)
    · exact fun other hother => hsettled other (List.mem_cons_of_mem _ hother)
    · exact fun one hone path hpath other hother =>
        hapart one (List.mem_cons_of_mem _ hone) path hpath other (List.mem_cons_of_mem _ hother)
    · intro file hfile other hother
      rcases List.mem_append.1 hfile with hfile | hfile
      · exact hfiles file hfile other (List.mem_cons_of_mem _ hother)
      · obtain ⟨path, hpath, hplace⟩ := exists_outputPath hnames hfile
        exact hapart input List.mem_cons_self path hpath other (List.mem_cons_of_mem _ hother) file.1 hplace

end

namespace Separate
variable {arguments : Arguments} {flatten : List (Frame Float) → List (Frame Float)} {inputs : List String}
  {tree : FileTree} {input : String}

/-- Where the files of an input are, the files of the others are not. -/
theorem last?_storedFor (h : Separate arguments inputs tree)
    (hnames : ∀ frames, (flatten frames).map Frame.name = frames.map Frame.name) (hinput : input ∈ inputs)
    {path : String} (hpath : path ∈ outputPaths arguments tree input) {place : Place}
    (hplace : (tree.makePath arguments.outputDirectory).2.follow? path = some place) :
    Entries.last? (inputs.flatMap (storedFor arguments flatten tree)) place =
      Entries.last? (storedFor arguments flatten tree input) place := by
  have hnone : ∀ others : List String, (∀ other ∈ others, path ∉ outputPaths arguments tree other) →
      Entries.last? (others.flatMap (storedFor arguments flatten tree)) place = none := by
    intro others hothers
    rw [Entries.last?_eq_none_iff]
    intro hkey
    obtain ⟨file, hfile, rfl⟩ := List.mem_map.1 hkey
    obtain ⟨other, hother, hstored⟩ := List.mem_flatMap.1 hfile
    obtain ⟨path', hpath', hplace'⟩ := exists_outputPath hnames hstored
    obtain rfl := (within_outputPaths hpath).eq_of_follow? (within_outputPaths hpath') hplace hplace'
    exact hothers other hother hpath'
  obtain ⟨before, after, hsplit⟩ := List.append_of_mem hinput
  have houtputs := h.outputs
  rw [hsplit, List.pairwise_append, List.pairwise_cons] at houtputs
  obtain ⟨-, ⟨hafter, -⟩, hbefore⟩ := houtputs
  rw [hsplit, List.flatMap_append, List.flatMap_cons, Entries.last?_append, Entries.last?_append,
    hnone before fun other hother hpath' => hbefore other hother input List.mem_cons_self path hpath' hpath,
    hnone after fun other hother => hafter other hother path hpath, Option.none_or, Option.or_none]

theorem settleAll_staged (h : Separate arguments inputs tree)
    (hnames : ∀ frames, (flatten frames).map Frame.name = frames.map Frame.name) :
    let made := tree.makePath arguments.outputDirectory
    let files := inputs.flatMap (storedFor arguments flatten tree)
    ∃ entered, settleAll arguments flatten inputs tree =
        (inputs.map fun input => (settle arguments flatten input tree).1, staged tree made entered files) ∧
      Stored arguments.outputDirectory tree made entered files ∧
        ∀ input ∈ inputs, Delivery.enters (deliver arguments flatten input tree) = true → entered = true := by
  intro made files
  have hdelivered : deliveries arguments flatten inputs tree = _ :=
    (Stored.start arguments.outputDirectory tree).deliveries_staged hnames (fun input => h.read?_eq) h.inputs nofun
  obtain ⟨hall, hstored⟩ := settleAll_eq arguments flatten inputs tree
  rw [hdelivered, List.flatMap_map] at hall hstored
  refine ⟨_, hall.trans (Prod.ext ?_ rfl), hstored, fun input hinput henters => ?_⟩
  · rw [List.map_map]
    exact List.map_congr_left fun input _ => (Prod.ext_iff.1 (settle_eq arguments flatten input tree).1).1.symm
  · exact List.any_eq_true.2 ⟨_, List.mem_map_of_mem hinput, henters⟩

/-- At the path of an output there is what is there if the input is alone. -/
theorem read?_settleAll (h : Separate arguments inputs tree)
    (hnames : ∀ frames, (flatten frames).map Frame.name = frames.map Frame.name) (hinput : input ∈ inputs)
    {path : String} (hpath : path ∈ outputPaths arguments tree input) :
    (settleAll arguments flatten inputs tree).2.read? path =
      (settle arguments flatten input tree).2.read? path := by
  have henters := Delivery.enters_of_mem_paths (paths_deliver hnames ▸ hpath)
  obtain ⟨entered, hall, hstored, hentered⟩ := h.settleAll_staged hnames
  obtain ⟨halone, hstored'⟩ := settle_eq arguments flatten input tree
  rw [hall, halone, hentered input hinput henters, henters]
  show ((tree.makePath arguments.outputDirectory).2.overlay _).read? path =
    ((tree.makePath arguments.outputDirectory).2.overlay _).read? path
  rw [FileTree.read?_overlay hstored.fits, FileTree.read?_overlay hstored'.fits]
  refine Option.bind_congr fun place hplace => ?_
  rw [h.last?_storedFor hnames hinput hpath hplace, storedFor]

/-- What no input changes if it is alone is not changed. -/
theorem content?_settleAll (h : Separate arguments inputs tree)
    (hnames : ∀ frames, (flatten frames).map Frame.name = frames.map Frame.name) {place : Place}
    (halone : ∀ input ∈ inputs, (settle arguments flatten input tree).2.content? place = tree.content? place) :
    (settleAll arguments flatten inputs tree).2.content? place = tree.content? place := by
  obtain ⟨entered, hall, hstored, -⟩ := h.settleAll_staged hnames
  rw [hall, hstored.content?_staged]
  cases hlast : Entries.last? (inputs.flatMap (storedFor arguments flatten tree)) place with
  | none => rw [Option.none_or]
  | some content =>
    -- a file that is there was stored for one of the inputs, and is there if that one is alone
    obtain ⟨input, hinput, hstoredFor⟩ := List.mem_flatMap.1 (Entries.mem_of_last? hlast)
    obtain ⟨path, hpath, hplace⟩ := exists_outputPath hnames hstoredFor
    obtain ⟨hsettle, hstored'⟩ := settle_eq arguments flatten input tree
    have hown := h.last?_storedFor hnames hinput hpath hplace
    rw [hlast, storedFor] at hown
    have hsame := halone input hinput
    rw [hsettle, hstored'.content?_staged, ← hown] at hsame
    exact hsame

end Separate

/-- A run over some inputs. -/
def runOver (settings : Settings) (day : String) (arguments : Arguments) (inputs : List String) (tree : FileTree) :
    Outcome × FileTree :=
  (runWith settings day { arguments with inputs } : StateM FileTree Outcome) tree

/-- Whether a run over an input alone fails. -/
def failsAlone (settings : Settings) (day : String) (arguments : Arguments) (tree : FileTree) (input : String) : Bool :=
  (runOver settings day arguments [input] tree).1.exitCode ≠ 0

/-- A run over inputs in some order does what the runs over each of them alone do. -/
structure Independent (settings : Settings) (day : String) (arguments : Arguments) (order : List String)
    (tree : FileTree) : Prop where
  outcome : (runOver settings day arguments order tree).1 =
    .complete order.length (order.countP (failsAlone settings day arguments tree))
  exitCode : (runOver settings day arguments order tree).1.exitCode = 0 ↔
    ∀ input ∈ order, failsAlone settings day arguments tree input = false
  errorLine : (runOver settings day arguments order tree).1.exitCode ≠ 0 →
    (runOver settings day arguments order tree).1.exitCode = 1 ∧
      (runOver settings day arguments order tree).1.errorLine? =
        some ("Error: " ++ toString (order.countP (failsAlone settings day arguments tree)) ++ " of " ++
          toString order.length ++ " inputs failed")
  inputs : ∀ cache, Cache.ofLimits? settings.lifetime settings.capacity = some cache →
    (outcomes settings.catalog.describer.cached settings.options arguments order (cache, ())
        (logged settings day tree)).1.map (fun outcome => !outcome.isOk) =
      order.map (failsAlone settings day arguments tree)
  files : ∀ input ∈ order, ∀ path ∈ outputPaths arguments (logged settings day tree) input,
    (runOver settings day arguments order tree).2.read? path =
      (runOver settings day arguments [input] tree).2.read? path
  rest : ∀ place, (∀ input ∈ order, (runOver settings day arguments [input] tree).2.content? place =
      (logged settings day tree).content? place) →
    (runOver settings day arguments order tree).2.content? place = (logged settings day tree).content? place

theorem names_flattened (settings : Settings) (arguments : Arguments) (frames : List (Frame Float)) :
    (flattened settings arguments frames).map Frame.name = frames.map Frame.name := by
  have hvalue : flattened settings arguments frames = _ :=
    Frame.value_flattenAll settings.catalog.describer settings.options arguments.assetId frames ()
  rw [hvalue, List.map_map]
  exact List.map_congr_left fun frame _ => (Frame.extends_flatten frame _ settings.options).name

theorem settleAll_singleton (arguments : Arguments) (flatten : List (Frame Float) → List (Frame Float))
    (input : String) (tree : FileTree) : settleAll arguments flatten [input] tree =
      ([(settle arguments flatten input tree).1], (settle arguments flatten input tree).2) := by
  rfl

/-- What becomes of inputs does not depend on what other inputs the arguments list. -/
theorem settleAll_inputs (arguments : Arguments) (flatten : List (Frame Float) → List (Frame Float))
    (listed inputs : List String) (tree : FileTree) :
    settleAll { arguments with inputs := listed } flatten inputs tree = settleAll arguments flatten inputs tree := by
  induction inputs generalizing tree with
  | nil => rfl
  | cons input inputs ih =>
    have hsettle : settle { arguments with inputs := listed } flatten input tree = settle arguments flatten input tree :=
      rfl
    rw [settleAll, settleAll, hsettle]
    dsimp only
    rw [ih]

theorem runOver_of_starts {settings : Settings} {day : String} {tree base : FileTree}
    (hlog : (startLog settings.log day : StateM FileTree Bool) tree = (true, base)) {cache : Cache}
    (hcache : Cache.ofLimits? settings.lifetime settings.capacity = some cache) (arguments : Arguments)
    (inputs : List String) :
    runOver settings day arguments inputs tree =
      (.complete inputs.length (failures (settleAll arguments (flattened settings arguments) inputs base).1),
        (settleAll arguments (flattened settings arguments) inputs base).2) := by
  rw [runOver, runWith_apply, hlog, hcache]
  dsimp only
  have hflattened : flattened settings { arguments with inputs } = flattened settings arguments := by
    funext frames
    rw [flattened, flattened]
  rw [hflattened, settleAll_inputs]

theorem failsAlone_of_starts {settings : Settings} {day : String} {tree base : FileTree}
    (hlog : (startLog settings.log day : StateM FileTree Bool) tree = (true, base)) {cache : Cache}
    (hcache : Cache.ofLimits? settings.lifetime settings.capacity = some cache) (arguments : Arguments)
    (input : String) : failsAlone settings day arguments tree input =
      !(settle arguments (flattened settings arguments) input base).1.isOk := by
  rw [failsAlone, runOver_of_starts hlog hcache, settleAll_singleton]
  dsimp only
  cases (settle arguments (flattened settings arguments) input base).1 with
  | ok done => rfl
  | error error => rfl

theorem exitCode_complete (inputs failed : Nat) : (Outcome.complete inputs failed).exitCode = 0 ↔ failed = 0 := by
  rw [Outcome.exitCode]
  split
  · rename_i hfailed
    exact iff_of_true rfl hfailed
  · rename_i hfailed
    exact iff_of_false (by decide) hfailed

theorem Separate.independent {settings : Settings} {day : String} {arguments : Arguments} {inputs : List String}
    {tree base : FileTree}
    (hlog : (startLog settings.log day : StateM FileTree Bool) tree = (true, base)) {cache : Cache}
    (hcache : Cache.ofLimits? settings.lifetime settings.capacity = some cache) (h : Separate arguments inputs base) :
    Independent settings day arguments inputs tree := by
  have hnames := names_flattened settings arguments
  obtain ⟨entered, hall, -⟩ := h.settleAll_staged hnames
  have hbase : logged settings day tree = base := congrArg Prod.snd hlog
  have hfails := failsAlone_of_starts hlog hcache arguments
  have houtcomes : (settleAll arguments (flattened settings arguments) inputs base).1 =
      inputs.map fun input => (settle arguments (flattened settings arguments) input base).1 := by
    rw [hall]
  have hfailed : failures (settleAll arguments (flattened settings arguments) inputs base).1 =
      inputs.countP (failsAlone settings day arguments tree) := by
    rw [houtcomes, failures, List.countP_map]
    exact List.countP_congr fun input _ => by rw [hfails]; rfl
  have houtcome : (runOver settings day arguments inputs tree).1 =
      .complete inputs.length (inputs.countP (failsAlone settings day arguments tree)) := by
    rw [runOver_of_starts hlog hcache, hfailed]
  refine ⟨houtcome, ?_, ?_, ?_, ?_, ?_⟩
  · rw [houtcome, exitCode_complete, List.countP_eq_zero]
    simp only [Bool.not_eq_true]
  · intro hcode
    rw [houtcome, ne_eq, exitCode_complete] at hcode
    rw [houtcome]
    exact ⟨if_neg hcode, if_neg hcode⟩
  · intro cache' hcache'
    have hcached := outcomes_cached settings.catalog.steady_describer
      (settings.catalog.describer.consistent_ofLimits? () hcache') settings.options arguments inputs base
    rw [hbase, hcached]
    show ((settleAll arguments (flattened settings arguments) inputs base).1.map _) = _
    rw [houtcomes, List.map_map]
    exact List.map_congr_left fun input _ => (hfails input).symm
  · intro input hinput path hpath
    rw [hbase] at hpath
    rw [runOver_of_starts hlog hcache, runOver_of_starts hlog hcache]
    exact h.read?_settleAll hnames hinput hpath
  · intro place halone
    rw [hbase] at halone ⊢
    rw [runOver_of_starts hlog hcache]
    refine h.content?_settleAll hnames fun input hinput => ?_
    have hinput := halone input hinput
    rw [runOver_of_starts hlog hcache] at hinput
    exact hinput

/-- A run over separate inputs does for each of them what a run over that input alone does, unless its log cannot be
started or its settings ask for a lifetime that no cache has. Then it does not come to its inputs, and neither does a
run over any others. -/
theorem run_independent (settings : Settings) (day : String) (arguments : Arguments) (inputs order : List String)
    (tree : FileTree) (hseparate : Separate arguments inputs (logged settings day tree))
    (horder : order.Perm inputs) :
    let started := ((startLog settings.log day : StateM FileTree Bool) tree).1
    (started = true → settings.lifetime ≤ Cache.longestLifetime → Independent settings day arguments order tree) ∧
    (started = true → Cache.longestLifetime < settings.lifetime → ∀ any,
      runOver settings day arguments any tree = (.broken .cacheLifetime, logged settings day tree)) ∧
    (started = false → ∀ any,
      runOver settings day arguments any tree = (.broken .logFile, logged settings day tree)) := by
  intro started
  have hsame : ∀ any, runOver settings day arguments any tree = _ := fun any =>
    runWith_apply settings day { arguments with inputs := any } tree
  have hlog : (startLog settings.log day : StateM FileTree Bool) tree = (started, logged settings day tree) := rfl
  refine ⟨fun hstarted hshort => ?_, fun hstarted hlong any => ?_, fun hstarted any => ?_⟩
  · rw [hstarted] at hlog
    exact (hseparate.perm horder).independent hlog (if_neg (Nat.not_lt.2 hshort))
  · rw [hsame, hlog, hstarted, Cache.ofLimits?, if_pos hlong]
  · rw [hsame, hlog, hstarted]

/-- An input with a frame, one with nothing in it and one that is no JSON. -/
def sampleTree : FileTree :=
  .ofFiles [("a.json", .bytes "[\x7b\"name\":\"f\",\"columns\":[]\x7d]".toUTF8), ("b.json", .bytes "[]".toUTF8),
    ("c.json", .bytes "?".toUTF8)]

def sampleArguments : Arguments := { inputs := [], format := .json }

theorem separate_sample : Separate sampleArguments ["a.json", "b.json", "c.json"] sampleTree := by
  have hplaces : ∀ input ∈ ["a.json", "b.json", "c.json"], ∀ path ∈ outputPaths sampleArguments sampleTree input,
      ∀ other ∈ ["a.json", "b.json", "c.json"],
        (sampleTree.makePath "out").2.follow? path ≠ (sampleTree.makePath "out").2.follow? other := by
    decide +kernel
  refine ⟨by decide +kernel, by decide +kernel, fun input hinput path hpath other hother place hplace hplace' => ?_⟩
  exact hplaces input hinput path hpath other hother (hplace.trans hplace'.symm)

/-- Nothing is wrong with two of three inputs, and the files for them are there whatever becomes of the third. -/
theorem run_independent_sample :
    Separate sampleArguments ["a.json", "b.json", "c.json"] (logged {} "2024-01-01" sampleTree) ∧
      ["c.json", "a.json", "b.json"].Perm ["a.json", "b.json", "c.json"] ∧
      (runOver {} "2024-01-01" sampleArguments ["c.json", "a.json", "b.json"] sampleTree).1 = .complete 3 1 ∧
      (runOver {} "2024-01-01" sampleArguments ["c.json", "a.json", "b.json"] sampleTree).2.read? "out/a.flat.json" =
        (runOver {} "2024-01-01" sampleArguments ["a.json"] sampleTree).2.read? "out/a.flat.json" := by
  have hseparate : Separate sampleArguments ["a.json", "b.json", "c.json"] (logged {} "2024-01-01" sampleTree) :=
    separate_sample
  have horder : ["c.json", "a.json", "b.json"].Perm ["a.json", "b.json", "c.json"] := by decide
  have hindependent : Independent {} "2024-01-01" sampleArguments ["c.json", "a.json", "b.json"] sampleTree :=
    (run_independent {} "2024-01-01" sampleArguments _ _ sampleTree hseparate horder).1 rfl (by decide)
  refine ⟨hseparate, horder, ?_, ?_⟩
  · rw [hindependent.outcome]
    decide +kernel
  · exact hindependent.files "a.json" (by decide) "out/a.flat.json" (by decide +kernel)

end CommandLine

end Unnest
