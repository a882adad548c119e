import Mathlib.Data.List.DropRight
import Unnest.Proofs.Flatten.Extends
import Unnest.Proofs.Sharing.History

/-!
# Resolving names

However many frames are flattened, the describer is asked at most twice: for the model of the asset, and for the
properties of that model if it has one. `Resolution` lists what may come of it, and `Resolves` says what that means
for a run: which questions were asked, and how properties are called in the frames that come out. Flattening
resolves the trimmed asset, and so does responding to a query if there is something to flatten (`resolves`). Both
are run with a describer that notes what it is asked.
-/

namespace Unnest
variable {α σ : Type}

namespace Text

theorem dropBlanks_dropBlanks (cs : List Char) : dropBlanks (dropBlanks cs) = dropBlanks cs :=
  List.dropWhile_idempotent isBlank cs

theorem dropBlanks_of_prefix {cs front : List Char} (h : front <+: dropBlanks cs) : dropBlanks front = front := by
  cases front with
  | nil => rfl
  | cons c front =>
    obtain ⟨rest, hrest⟩ := h
    have hhead : (dropBlanks cs).head? = some c := by rw [← hrest]; rfl
    have hblank := List.head?_dropWhile_not isBlank cs
    rw [← dropBlanks, hhead] at hblank
    exact dropBlanks_eq_self (by simpa using hblank)

theorem trim_trim (s : String) : trim (trim s) = trim s := by
  have hfront : dropBlanks (dropBlanks (dropBlanks s.toList).reverse).reverse =
      (dropBlanks (dropBlanks s.toList).reverse).reverse :=
    dropBlanks_of_prefix (List.rdropWhile_prefix isBlank (dropBlanks s.toList))
  simp only [trim, String.toList_ofList, hfront, List.reverse_reverse, dropBlanks_dropBlanks]

end Text

namespace Describer

theorem value_modelNames (describer : Describer σ) (state : σ) (modelId : String) :
    (describer.modelNames modelId state).value =
      match describer.reply state (.model modelId) with
      | .ok properties => (NameMap.ofProperties properties, describer.after state [.model modelId])
      | .error _ => ({}, describer.after state [.model modelId]) := by
  simp only [modelNames, reply, after, answer, List.foldl, bind, StateT.bind]
  rcases describer.model modelId state with ⟨⟨_ | properties, _⟩, _⟩ <;> rfl

theorem value_assetNames (describer : Describer σ) (state : σ) (assetId : String) :
    (describer.assetNames assetId state).value =
      match describer.reply state (.asset assetId) with
      | .ok (some modelId) =>
        if modelId = "" then ({}, describer.after state [.asset assetId])
        else (describer.modelNames modelId (describer.after state [.asset assetId])).value
      | _ => ({}, describer.after state [.asset assetId]) := by
  simp only [assetNames, reply, after, answer, List.foldl, bind, StateT.bind]
  rcases describer.asset assetId state with ⟨⟨_ | (_ | modelId), state'⟩, events⟩
  · rfl
  · rfl
  · by_cases hm : modelId = ""
    · subst hm
      rfl
    · have hempty : modelId.isEmpty = false := by simpa using hm
      simp only [hm, hempty]
      rfl

theorem value_nameMap (describer : Describer σ) (state : σ) (assetId : String) :
    (describer.nameMap assetId state).value =
      if Text.trim assetId = "" then ({}, state) else (describer.assetNames (Text.trim assetId) state).value := by
  rw [nameMap]
  by_cases hid : Text.trim assetId = ""
  · rw [hid]
    rfl
  · have hempty : (Text.trim assetId).isEmpty = false := by simpa using hid
    simp only [hid, hempty, Bool.false_eq_true, if_false, bind, StateT.bind]
    rcases describer.assetNames (Text.trim assetId) state with ⟨⟨names, state'⟩, events⟩
    dsimp only
    split <;> rfl

/-- An asset has a model, and the model has properties. -/
structure Describes (describer : Describer σ) (state : σ) (assetId modelId : String) (properties : List Property) :
    Prop where
  asset_ne : assetId ≠ ""
  model_ne : modelId ≠ ""
  asset : describer.reply state (.asset assetId) = .ok (some modelId)
  model : describer.reply (describer.after state [.asset assetId]) (.model modelId) = .ok properties

/-- The names, the questions and the state that may come of resolving an asset. -/
inductive Resolution (describer : Describer σ) (state : σ) (assetId : String) : NameMap × List Call × σ → Prop
  | skipped (empty : assetId = "") : Resolution describer state assetId ({}, [], state)
  | modelless (asset_ne : assetId ≠ "")
      (asset : ∀ modelId, modelId ≠ "" → describer.reply state (.asset assetId) ≠ .ok (some modelId)) :
      Resolution describer state assetId ({}, [.asset assetId], describer.after state [.asset assetId])
  | failed {modelId : String} (asset_ne : assetId ≠ "") (model_ne : modelId ≠ "")
      (asset : describer.reply state (.asset assetId) = .ok (some modelId))
      (model : ∀ properties,
        describer.reply (describer.after state [.asset assetId]) (.model modelId) ≠ .ok properties) :
      Resolution describer state assetId
        ({}, [.asset assetId, .model modelId], describer.after state [.asset assetId, .model modelId])
  | resolved {modelId : String} {properties : List Property}
      (describes : Describes describer state assetId modelId properties) :
      Resolution describer state assetId
        (.ofProperties properties, [.asset assetId, .model modelId],
          describer.after state [.asset assetId, .model modelId])

theorem resolution_nameMap (describer : Describer σ) (state : σ) (assetId : String) :
    Resolution describer state (Text.trim assetId) (describer.noting.nameMap assetId ([], state)).value := by
  have hreply : ∀ calls state call, describer.noting.reply (calls, state) call = describer.reply state call :=
    fun calls state call => congrArg Prod.fst (describer.answer_noting call calls state)
  have hafter : ∀ calls state call,
      describer.noting.after (calls, state) [call] = (calls ++ [call], describer.after state [call]) :=
    fun calls state call => congrArg Prod.snd (describer.answer_noting call calls state)
  rw [value_nameMap]
  generalize Text.trim assetId = id
  by_cases hid : id = ""
  · rw [if_pos hid]
    exact .skipped hid
  rw [if_neg hid, value_assetNames, hreply, hafter]
  rcases hasset : describer.reply state (.asset id) with error | (_ | modelId)
  · exact .modelless hid fun modelId _ h => nomatch hasset.symm.trans h
  · exact .modelless hid fun modelId _ h => nomatch hasset.symm.trans h
  dsimp only
  by_cases hm : modelId = ""
  · rw [if_pos hm]
    refine .modelless hid fun other hne h => hne ?_
    cases hasset.symm.trans h
    exact hm
  simp only [hm, if_false, value_modelNames, hreply, hafter]
  cases hmodel : describer.reply (describer.after state [.asset id]) (.model modelId) with
  | error error => exact .failed hid hm hasset fun properties h => nomatch hmodel.symm.trans h
  | ok properties => exact .resolved ⟨hid, hm, hasset, hmodel⟩

end Describer

namespace NameMap

/-- The name in the last description of a property that has an identifier and a name. -/
def lastName? (properties : List Property) (id : String) : Option String :=
  (properties.filter fun p => p.id = id ∧ p.id ≠ "" ∧ p.name ≠ "").getLast?.map Property.name

theorem resolve_ofProperties (properties : List Property) (id : String) :
    (ofProperties properties).resolve id = (lastName? properties id).getD id := by
  have hkept : (properties.filter fun p => !p.id.isEmpty && !p.name.isEmpty).filter (fun p => p.id = id) =
      properties.filter fun p => p.id = id ∧ p.id ≠ "" ∧ p.name ≠ "" := by
    rw [List.filter_filter]
    refine List.filter_congr fun p _ => ?_
    rw [Bool.eq_iff_iff]
    simp
  rw [resolve, ofProperties, Entries.get?_ofList, Entries.last?, List.filter_map, List.map_map, lastName?, ← hkept,
    ← List.getLast?_map]
  rfl

theorem resolve_ofProperties_ne {id : String} (h : id ≠ "") (properties : List Property) :
    (ofProperties properties).resolve id ≠ "" := by
  rw [resolve_ofProperties]
  cases hname : lastName? properties id with
  | none => exact h
  | some name =>
    obtain ⟨p, hp, rfl⟩ := Option.map_eq_some_iff.1 hname
    have hkept := (List.mem_filter.1 (List.mem_of_getLast? hp)).2
    exact (of_decide_eq_true hkept).2.2

end NameMap

/-- What a run over frames asks of a describer about an asset, and how it calls properties. -/
structure Resolves [Quantity α] (describer : Describer σ) (state : σ) (options : Options) (assetId : String)
    (frames : List (Frame α)) (run : List (Frame α) × List Call × σ) : Prop where
  skipped : assetId = "" → run.2 = ([], state)
  modelless : assetId ≠ "" →
    (∀ modelId, modelId ≠ "" → describer.reply state (.asset assetId) ≠ .ok (some modelId)) →
      run.2 = ([.asset assetId], describer.after state [.asset assetId])
  modelled : assetId ≠ "" → ∀ modelId, modelId ≠ "" → describer.reply state (.asset assetId) = .ok (some modelId) →
    run.2 = ([.asset assetId, .model modelId], describer.after state [.asset assetId, .model modelId])
  named : ∀ modelId properties, describer.Describes state assetId modelId properties →
    ∃ names : NameMap, (∀ id, names.resolve id = (NameMap.lastName? properties id).getD id) ∧
      (∀ id, id ≠ "" → names.resolve id ≠ "") ∧
        run.1 = frames.map fun frame => (frame.flatten names options).value
  unnamed : (∀ modelId properties, ¬ describer.Describes state assetId modelId properties) →
    run.1 = (Frame.flattenAll describer options "" frames state).value.1

section
variable [Quantity α] {describer : Describer σ} {state : σ} {options : Options} {assetId : String}
  {frames : List (Frame α)}

theorem Describer.Resolution.toResolves {names : NameMap} {asked : List Call × σ}
    (h : describer.Resolution state assetId (names, asked)) :
    Resolves describer state options assetId frames
      (frames.map fun frame => (frame.flatten names options).value, asked) := by
  have hempty : (Frame.flattenAll describer options "" frames state).value.1 =
      frames.map fun frame => (frame.flatten {} options).value :=
    Frame.value_flattenAll describer options "" frames state
  cases h with
  | skipped empty =>
    exact {
      skipped := fun _ => rfl
      modelless := fun hid => absurd empty hid
      modelled := fun hid => absurd empty hid
      named := fun _ _ hdescribes => absurd empty hdescribes.asset_ne
      unnamed := fun _ => hempty.symm }
  | modelless asset_ne asset =>
    exact {
      skipped := fun hid => absurd hid asset_ne
      modelless := fun _ _ => rfl
      modelled := fun _ modelId hne hasset => absurd hasset (asset modelId hne)
      named := fun modelId _ hdescribes => absurd hdescribes.asset (asset modelId hdescribes.model_ne)
      unnamed := fun _ => hempty.symm }
  | @failed modelId asset_ne model_ne asset model =>
    exact {
      skipped := fun hid => absurd hid asset_ne
      modelless := fun _ hnone => absurd asset (hnone modelId model_ne)
      modelled := fun _ other _ hasset => by
        cases asset.symm.trans hasset
        rfl
      named := fun other properties hdescribes => by
        cases asset.symm.trans hdescribes.asset
        exact absurd hdescribes.model (model properties)
      unnamed := fun _ => hempty.symm }
  | @resolved modelId properties describes =>
    exact {
      skipped := fun hid => absurd hid describes.asset_ne
      modelless := fun _ hnone => absurd describes.asset (hnone modelId describes.model_ne)
      modelled := fun _ other _ hasset => by
        cases describes.asset.symm.trans hasset
        rfl
      named := fun other properties' hdescribes => by
        cases describes.asset.symm.trans hdescribes.asset
        cases describes.model.symm.trans hdescribes.model
        exact ⟨.ofProperties properties, NameMap.resolve_ofProperties properties,
          fun id hid => NameMap.resolve_ofProperties_ne hid properties, rfl⟩
      unnamed := fun hnone => absurd describes (hnone modelId properties) }

theorem Frame.snd_flattenAll (describer : Describer σ) (options : Options) (assetId : String) (frames : List (Frame α))
    (state : σ) : ((flattenAll describer options assetId frames).run state).value.2 =
      ((describer.nameMap assetId).run state).value.2 := by
  rw [flattenAll, StateT.run_bind, Traced.value_bind, StateT.run_bind, Traced.value_bind, StateT.run_lift,
    Traced.value_bind, Traced.value_pure]
  rfl

theorem Frame.resolves_flattenAll (describer : Describer σ) (state : σ) (options : Options) (assetId : String)
    (frames : List (Frame α)) : Resolves describer state options (Text.trim assetId) frames
      (Frame.flattenAll describer.noting options assetId frames ([], state)).value := by
  have hresolution := describer.resolution_nameMap state assetId
  rcases hmap : (describer.noting.nameMap assetId ([], state)).value with ⟨names, asked⟩
  rw [hmap] at hresolution
  have hframes := value_flattenAll describer.noting options assetId frames ([], state)
  have hasked := snd_flattenAll describer.noting options assetId frames ([], state)
  rw [StateT.run, StateT.run, hmap] at hframes hasked
  have hrun : (flattenAll describer.noting options assetId frames ([], state)).value =
      (frames.map fun frame => (frame.flatten names options).value, asked) := Prod.ext hframes hasked
  rw [hrun]
  exact hresolution.toResolves

end

/-- Flattening and responding ask for the model of the trimmed asset, and for the properties of that model. With
them properties are called by their last names, and without them the frames are those that no asset gives. -/
theorem resolves [Quantity α] (describer : Describer σ) (state : σ) (options : Options) (frames : List (Frame α)) :
    (∀ assetId, Resolves describer state options (Text.trim assetId) frames
      (Frame.flattenAll describer.noting options assetId frames ([], state)).value) ∧
      ∀ query : Query,
        (query.needsFlattening frames = true →
          Resolves describer state options (Text.trim (query.assetIds.head?.getD "")) frames
            (query.respond describer.noting options frames ([], state)).value) ∧
        (query.needsFlattening frames = false →
          (query.respond describer.noting options frames ([], state)).value = (frames, [], state)) := by
  refine ⟨fun assetId => Frame.resolves_flattenAll describer state options assetId frames, fun query => ⟨?_, ?_⟩⟩
  · intro hneeds
    have hasset : Text.trim query.primaryAsset = Text.trim (query.assetIds.head?.getD "") := by
      rw [Query.primaryAsset]
      cases query.assetIds.head? with
      | none => rfl
      | some assetId => exact Text.trim_trim assetId
    rw [Query.respond, if_pos hneeds, ← hasset]
    exact Frame.resolves_flattenAll describer state options query.primaryAsset frames
  · intro hneeds
    rw [Query.respond, hneeds]
    rfl

/-- The asset is trimmed, and its model is asked for once although there are two frames. -/
example : (Frame.flattenAll Directory.describer.noting {} " pump " [(⟨"f", [], none⟩ : Frame Float), ⟨"g", [], none⟩]
    ([], { assets := [("pump", .ok (some "m"))], models := [("m", .ok [⟨"a", "Speed"⟩])] })).value.2.1 =
      [.asset "pump", .model "m"] := by
  rfl

end Unnest
