import Unnest.Proofs.CommandLine.Runs
import Unnest.Proofs.Describe.Resolution
import Unnest.Proofs.Settings.Loading

/-!
# The configured catalog

A catalog that is loaded from a file answers what the file says under keys in lower case: the model of an
asset, and the properties of a model with their names (`catalog_load`). So a property of an asset is called by
its configured name when frames are flattened for the asset. It answers nothing else: keys are in lower case
once they are loaded, and whoever asks for an asset by a key as it is spelled in the file is not answered if
that is not in lower case (`catalog_load_fails`).
-/

namespace Unnest.Settings
open Text

section
variable {α : Type} {read : Node → Option α} {node : Node} {entries : Entries String α}

theorem forall₂_of_toEntries? (h : node.toEntries? read = some entries) :
    List.Forall₂ (fun entry got => entry.1 = got.1 ∧ read entry.2 = some got.2) node.entries entries := by
  cases node with
  | table known =>
    rw [Node.toEntries?] at h
    show List.Forall₂ _ known entries
    induction known generalizing entries with
    | nil =>
      cases h
      exact .nil
    | cons entry rest ih =>
      rw [List.mapM_cons] at h
      obtain ⟨first, hfirst, h⟩ := Option.bind_eq_some_iff.1 h
      obtain ⟨value, hvalue, hfirst⟩ := Option.bind_eq_some_iff.1 hfirst
      obtain ⟨others, hothers, h⟩ := Option.bind_eq_some_iff.1 h
      cases hfirst
      cases h
      exact .cons ⟨rfl, hvalue⟩ (ih hothers)
  | _ => cases h

theorem keys_of_toEntries? (h : node.toEntries? read = some entries) :
    Entries.keys entries = Entries.keys node.entries := by
  have hall := forall₂_of_toEntries? h
  clear h
  generalize node.entries = known at hall
  induction hall with
  | nil => rfl
  | cons hentry _ ih => rw [Entries.keys_cons, Entries.keys_cons, hentry.1, ih]

theorem get?_of_toEntries? (h : node.toEntries? read = some entries) (key : String) :
    Entries.get? entries key = (Entries.get? node.entries key).bind read := by
  have hall := forall₂_of_toEntries? h
  clear h
  generalize node.entries = known at hall
  induction hall with
  | nil => rfl
  | @cons entry got _ _ hentry _ ih =>
    by_cases hkey : got.1 = key
    · simp [Entries.get?, hentry.1, hkey, hentry.2]
    · simp [Entries.get?, hentry.1, hkey, ih]

end

/-- A section that has an entry is read by its keys. -/
theorem section?_of_get? {node value : Node} {keys : List String} {key : String}
    (h : Entries.get? node.entries key = some value) : node.section? keys = some (Entries.get? node.entries) := by
  cases node with
  | table entries => rfl
  | _ => cases h

theorem toCatalog?_of_ofNode? {root node : Node} {settings : Settings} (h : ofNode? root = some settings)
    (hcatalog : Entries.get? root.entries "catalog" = some node) : node.toCatalog? = some settings.catalog := by
  obtain ⟨key, hkey, h⟩ := Option.bind_eq_some_iff.1 h
  obtain ⟨options, -, h⟩ := Option.bind_eq_some_iff.1 h
  obtain ⟨limits, -, h⟩ := Option.bind_eq_some_iff.1 h
  obtain ⟨catalog, hread, h⟩ := Option.bind_eq_some_iff.1 h
  obtain ⟨log, -, h⟩ := Option.bind_eq_some_iff.1 h
  cases h
  cases (section?_of_get? hcatalog).symm.trans hkey
  rwa [hcatalog] at hread

section
variable {node : Node} {catalog : Catalog} (h : node.toCatalog? = some catalog)
include h

theorem assets_of_toCatalog? {assets : Node} (hassets : Entries.get? node.entries "assets" = some assets) :
    assets.toEntries? Node.toText? = some catalog.assets := by
  obtain ⟨key, hkey, h⟩ := Option.bind_eq_some_iff.1 h
  obtain ⟨known, hknown, h⟩ := Option.bind_eq_some_iff.1 h
  obtain ⟨models, -, h⟩ := Option.bind_eq_some_iff.1 h
  cases h
  cases (section?_of_get? hassets).symm.trans hkey
  rwa [hassets] at hknown

theorem models_of_toCatalog? {models : Node} (hmodels : Entries.get? node.entries "models" = some models) :
    models.toEntries? (Node.toEntries? Node.toText?) = some catalog.models := by
  obtain ⟨key, hkey, h⟩ := Option.bind_eq_some_iff.1 h
  obtain ⟨assets, -, h⟩ := Option.bind_eq_some_iff.1 h
  obtain ⟨known, hknown, h⟩ := Option.bind_eq_some_iff.1 h
  cases h
  cases (section?_of_get? hmodels).symm.trans hkey
  rwa [hmodels] at hknown

end

/-! ### What the catalog answers -/

section
variable {node : Node} {catalog : Catalog} {id model p name : String}
  (h : node.settled.toCatalog? = some catalog)
include h

theorem asset_of_at? (hid : node.at? ["assets", id] = some (.text model)) : catalog.asset id = .ok (some model) := by
  obtain ⟨assets, hassets, hid⟩ := Option.bind_eq_some_iff.1 hid
  obtain ⟨value, hid, hvalue⟩ := Option.bind_eq_some_iff.1 hid
  cases hvalue
  have hget : Entries.get? catalog.assets id = some model := by
    rw [get?_of_toEntries? (assets_of_toCatalog? h (Node.get?_settled hassets)), Node.get?_settled hid]
    rfl
  rw [Catalog.asset, hget]

/-- An asset is only found by a key in lower case. -/
theorem exists_of_asset {assets : Node} (hassets : node.only? "assets" = some assets)
    (hid : catalog.asset id = .ok (some model)) : ∃ entry ∈ assets.entries, lowercase entry.1 = id := by
  refine Node.mem_keys_settled ?_
  rw [← keys_of_toEntries? (assets_of_toCatalog? h (Node.get?_settled hassets)), ← Entries.get?_isSome_iff]
  rw [Catalog.asset] at hid
  split at hid
  · rename_i hget
    rw [hget]
    rfl
  · cases hid

theorem model_of_at? (hp : node.at? ["models", model, p] = some (.text name)) :
    ∃ properties, catalog.model model = .ok properties ∧ ⟨p, name⟩ ∈ properties ∧
      (properties.map Property.id).Nodup := by
  obtain ⟨models, hmodels, hp⟩ := Option.bind_eq_some_iff.1 hp
  obtain ⟨properties, hmodel, hp⟩ := Option.bind_eq_some_iff.1 hp
  obtain ⟨value, hp, hvalue⟩ := Option.bind_eq_some_iff.1 hp
  cases hvalue
  have hread := models_of_toCatalog? h (Node.get?_settled hmodels)
  have hkey : model ∈ Entries.keys catalog.models := by
    rw [keys_of_toEntries? hread, ← Entries.get?_isSome_iff, Node.get?_settled hmodel]
    rfl
  obtain ⟨names, hget⟩ := Option.isSome_iff_exists.1 (Entries.get?_isSome_iff.2 hkey)
  have hnames : properties.settled.toEntries? Node.toText? = some names := by
    rw [← hget, get?_of_toEntries? hread, Node.get?_settled hmodel, Option.bind_some]
  have hname : (p, name) ∈ names := Entries.mem_of_get? (by
    rw [get?_of_toEntries? hnames, Node.get?_settled hp]
    rfl)
  have hsorted : (Catalog.sorted names).Perm names := List.mergeSort_perm names _
  refine ⟨(Catalog.sorted names).map fun entry => ⟨entry.1, entry.2⟩, by rw [Catalog.model, hget],
    List.mem_map.2 ⟨(p, name), hsorted.mem_iff.2 hname, rfl⟩, ?_⟩
  rw [List.map_map]
  show (Entries.keys (Catalog.sorted names)).Nodup
  refine (hsorted.map Prod.fst).nodup_iff.2 ?_
  show (Entries.keys names).Nodup
  rw [keys_of_toEntries? hnames]
  exact Node.nodup_settled properties

end

theorem lastName?_of_mem {properties : List Property} {p name : String} (hn : (properties.map Property.id).Nodup)
    (h : ⟨p, name⟩ ∈ properties) (hp : p ≠ "") (hname : name ≠ "") :
    NameMap.lastName? properties p = some name := by
  have hmem : (⟨p, name⟩ : Property) ∈ properties.filter fun q => q.id = p ∧ q.id ≠ "" ∧ q.name ≠ "" :=
    List.mem_filter.2 ⟨h, decide_eq_true ⟨rfl, hp, hname⟩⟩
  rw [NameMap.lastName?]
  cases hlast : (properties.filter fun q => q.id = p ∧ q.id ≠ "" ∧ q.name ≠ "").getLast? with
  | none =>
    rw [List.getLast?_eq_none_iff.1 hlast] at hmem
    cases hmem
  | some last =>
    obtain ⟨hin, hlast⟩ := List.mem_filter.1 (List.mem_of_getLast? hlast)
    obtain rfl := List.inj_on_of_nodup_map hn hin h (of_decide_eq_true hlast).1
    rfl

/-- Frames that are flattened for a configured asset have the names of its properties. -/
theorem flattened_eq {settings : Settings} {arguments : CommandLine.Arguments} {model : String}
    {properties : List Property} (hne : Text.trim arguments.assetId ≠ "") (hmodel : model ≠ "")
    (hasset : settings.catalog.asset (Text.trim arguments.assetId) = .ok (some model))
    (hproperties : settings.catalog.model model = .ok properties) :
    ∀ frames, CommandLine.flattened settings arguments frames =
      frames.map fun frame => (frame.flatten (.ofProperties properties) settings.options).value := by
  have hreply : settings.catalog.describer.reply () (.asset (Text.trim arguments.assetId)) = .ok (some model) := hasset
  have hnames : (settings.catalog.describer.nameMap arguments.assetId ()).value.1 = .ofProperties properties := by
    have hmodelReply : ∀ state, settings.catalog.describer.reply state (.model model) = .ok properties :=
      fun _ => hproperties
    rw [Describer.value_nameMap, if_neg hne, Describer.value_assetNames, hreply]
    simp only [hmodel, if_false, Describer.value_modelNames, hmodelReply]
  intro frames
  rw [CommandLine.flattened]
  refine (Frame.value_flattenAll _ _ _ _ _).trans ?_
  rw [StateT.run, hnames]

/-- The settings of a file have what its layer has, and nothing from an environment that sets nothing. -/
theorem ofLayer_eq_ok {loader : Loader} {path : Option String} {layer : List (String × Node)}
    {environment : Environment} {settings : Settings} (henvironment : layerOfEnvironment? environment = some [])
    (h : ofLayer loader path layer environment = .ok settings) :
    ∃ root, Node.overlay loader.room (.table []) (loader.order.layer path.toList layer) = some root ∧
      ofNode? root = some settings := by
  obtain ⟨assigned, hassigned, h⟩ := Json.exists_of_bind_eq_ok h
  rw [unless_eq_ok, henvironment, Option.some_inj] at hassigned
  subst hassigned
  obtain ⟨root, hroot, h⟩ := Json.exists_of_bind_eq_ok h
  obtain ⟨last, hlast, h⟩ := Json.exists_of_bind_eq_ok h
  have hnone : loader.order.layer [] [] = [] := List.perm_nil.1 (Node.perm_layer loader.order [] [])
  rw [hnone] at hlast
  cases hlast
  exact ⟨root, unless_eq_ok.1 hroot, unless_eq_ok.1 h⟩

/-- The catalog of the settings that are loaded from a file answers what is configured under keys in lower case,
and knows assets by such keys only. -/
theorem catalog_load {loader : Loader} {path : String} {environment : Environment} {tree : FileTree}
    {settings : Settings} (henvironment : layerOfEnvironment? environment = some [])
    (hload : ((load loader (some path) environment : StateM FileTree (Except Failure Settings)) tree).1 =
      .ok settings) :
    ∃ layer, ((layerOfFile loader path : StateM FileTree _) tree).1 = .ok layer ∧
      (∀ id model, Node.configuredText? layer ["catalog", "assets", id] = some model →
        settings.catalog.asset id = .ok (some model)) ∧
      (∀ assets id model, Node.configured? layer ["catalog", "assets"] = some assets →
        settings.catalog.asset id = .ok (some model) → ∃ entry ∈ assets.entries, lowercase entry.1 = id) ∧
      (∀ model p name, Node.configuredText? layer ["catalog", "models", model, p] = some name →
        ∃ properties, settings.catalog.model model = .ok properties ∧ ⟨p, name⟩ ∈ properties) ∧
      ∀ id model p name, Node.configuredText? layer ["catalog", "assets", id] = some model →
        Node.configuredText? layer ["catalog", "models", model, p] = some name →
        id ≠ "" → model ≠ "" → p ≠ "" → name ≠ "" →
        ∃ names : NameMap, names.resolve p = name ∧
          ∀ arguments : CommandLine.Arguments, Text.trim arguments.assetId = id → ∀ frames,
            CommandLine.flattened settings arguments frames =
              frames.map fun frame => (frame.flatten names settings.options).value := by
  rw [load_apply] at hload
  obtain ⟨layer, hlayer, hload⟩ := Json.exists_of_bind_eq_ok hload
  rw [layerOfFile_apply]
  obtain ⟨root, hroot, hnode⟩ := ofLayer_eq_ok henvironment hload
  have hcatalog : ∀ {keys : List String} {value : Node}, Node.configured? layer ("catalog" :: keys) = some value →
      ∃ (node : Node) (trail : List String), node.settled.toCatalog? = some settings.catalog ∧
        node.at? keys = some (loader.order.node trail value) := fun hvalue => by
    obtain ⟨trail, hvalue⟩ := Node.exists_configured?_layer loader.order [path] hvalue
    obtain ⟨node, htop, hvalue⟩ := Option.bind_eq_some_iff.1 hvalue
    exact ⟨node, trail, toCatalog?_of_ofNode? hnode (Node.get?_overlay htop hroot), hvalue⟩
  have hasset : ∀ id model, Node.configuredText? layer ["catalog", "assets", id] = some model →
      settings.catalog.asset id = .ok (some model) := fun id model hid => by
    obtain ⟨node, trail, hread, hid⟩ := hcatalog (Node.configured?_of_text? hid)
    exact asset_of_at? hread hid
  have hmodel : ∀ model p name, Node.configuredText? layer ["catalog", "models", model, p] = some name →
      ∃ properties, settings.catalog.model model = .ok properties ∧ ⟨p, name⟩ ∈ properties ∧
        (properties.map Property.id).Nodup := fun model p name hp => by
    obtain ⟨node, trail, hread, hp⟩ := hcatalog (Node.configured?_of_text? hp)
    exact model_of_at? hread hp
  refine ⟨layer, hlayer, hasset, fun assets id model hassets hid => ?_, fun model p name hp => ?_, ?_⟩
  · obtain ⟨node, trail, hread, hassets⟩ := hcatalog hassets
    obtain ⟨known, hknown, hsame⟩ := Option.bind_eq_some_iff.1 hassets
    cases hsame
    obtain ⟨entry, hentry, hlower⟩ := exists_of_asset hread hknown hid
    obtain ⟨written, hwritten, hkey⟩ := Node.mem_entries_of_node hentry
    exact ⟨written, hwritten, hkey ▸ hlower⟩
  · obtain ⟨properties, hproperties, hmem, -⟩ := hmodel model p name hp
    exact ⟨properties, hproperties, hmem⟩
  · intro id model p name hid hp hidne hmodelne hpne hnamene
    obtain ⟨properties, hproperties, hmem, hnodup⟩ := hmodel model p name hp
    refine ⟨.ofProperties properties, ?_, fun arguments htrim frames => ?_⟩
    · rw [NameMap.resolve_ofProperties, lastName?_of_mem hnodup hmem hpne hnamene]
      rfl
    · subst htrim
      exact flattened_eq hidne hmodelne (hasset _ model hid) hproperties frames

/-- A file that names a property of an asset, whose key is given. -/
def configurationOf (asset : String) : FileTree :=
  .ofFiles [("c.toml",
    .bytes ("[catalog.assets]\n" ++ asset ++ " = \"m\"\n\n[catalog.models.m]\np = \"Speed\"\n").toUTF8)]

theorem catalog_load_pump : ∃ settings : Settings,
    ((load .standard (some "c.toml") [] : StateM FileTree (Except Failure Settings)) (configurationOf "pump")).1 =
        .ok settings ∧
      settings.catalog.asset "pump" = .ok (some "m") ∧
      (∃ properties, settings.catalog.model "m" = .ok properties ∧ ⟨"p", "Speed"⟩ ∈ properties) ∧
      ∃ names : NameMap, names.resolve "p" = "Speed" ∧
        ∀ arguments : CommandLine.Arguments, Text.trim arguments.assetId = "pump" → ∀ frames,
          CommandLine.flattened settings arguments frames =
            frames.map fun frame => (frame.flatten names settings.options).value := by
  have hsome : (((load .standard (some "c.toml") [] : StateM FileTree (Except Failure Settings))
      (configurationOf "pump")).1.toOption).isSome := by
    decide +kernel
  obtain ⟨settings, hload⟩ := Option.isSome_iff_exists.1 hsome
  rw [Json.toOption_eq_some] at hload
  obtain ⟨layer, hlayer, hassets, -, hmodels, hnames⟩ := catalog_load rfl hload
  have hid : ((layerOfFile .standard "c.toml" : StateM FileTree (Except Failure (List (String × Node))))
      (configurationOf "pump")).1.toOption.bind (Node.configuredText? · ["catalog", "assets", "pump"]) =
        some "m" := by decide +kernel
  have hp : ((layerOfFile .standard "c.toml" : StateM FileTree (Except Failure (List (String × Node))))
      (configurationOf "pump")).1.toOption.bind (Node.configuredText? · ["catalog", "models", "m", "p"]) =
        some "Speed" := by decide +kernel
  rw [hlayer] at hid hp
  exact ⟨settings, hload, hassets _ _ hid, hmodels _ _ _ hp,
    hnames _ _ _ _ hid hp (by decide) (by decide) (by decide) (by decide)⟩

/-- An asset is not found by the key that it has in the file if that is not in lower case. -/
theorem catalog_load_fails :
    ((layerOfFile .standard "c.toml" : StateM FileTree (Except Failure (List (String × Node))))
        (configurationOf "Pump")).1.toOption.bind
        (fun layer => (Node.configured? layer ["catalog", "assets"]).map fun assets =>
          assets.entries.map fun entry => (entry.1, entry.2.text?)) = some [("Pump", some "m")] ∧
      ((load .standard (some "c.toml") [] : StateM FileTree (Except Failure Settings))
        (configurationOf "Pump")).1.toOption.map
        (fun settings => settings.catalog.asset "Pump") = some (.error (.assetNotFound "Pump")) := by
  refine ⟨?_, ?_⟩ <;> decide +kernel

end Unnest.Settings
