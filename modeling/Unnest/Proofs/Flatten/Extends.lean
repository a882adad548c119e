import Unnest.Proofs.Flatten.Sources
import Unnest.Proofs.Frame
import Unnest.Query

/-!
# Flattening extends frames

Every frame that comes out of flattening extends the one that went in: it has the same name and metadata,
and the columns added to it have its row count and names that are new. So a well-formed frame stays one.
The columns derived from one text column keep `Derived.Inv`, and they leave alone the names in use, to
which every column adds its own (`extension_addedBefore`).
-/

namespace Unnest
variable {α : Type} [Quantity α] {names : NameMap} {options : Options}

namespace Frame
variable {frame : Frame α}

omit [Quantity α] in
theorem Extension.append {added : List (Column α)} {derived : Derived α} (h : frame.Extension added)
    (hi : derived.Inv) (hr : derived.rows = frame.rowCount)
    (ht : derived.taken = frame.columnNames ++ added.map Column.name) :
    frame.Extension (added ++ derived.columns) := by
  have hfree : ∀ column ∈ derived.columns, column.name ∉ derived.taken := fun column hc =>
    hi.free _ (derived.keys_fields ▸ List.mem_map_of_mem hc)
  refine ⟨fun column hc => ?_, ?_, fun column hc => ?_⟩
  · rcases List.mem_append.1 hc with hc | hc
    · exact h.even column hc
    · exact (hi.even column hc).trans hr
  · rw [List.map_append]
    refine List.nodup_append.2 ⟨h.nodup, derived.keys_fields ▸ hi.nodup, fun a ha b hb hab => ?_⟩
    obtain ⟨column, hc, rfl⟩ := List.mem_map.1 hb
    exact hfree column hc (ht ▸ List.mem_append_right _ (hab ▸ ha))
  · rcases List.mem_append.1 hc with hc | hc
    · exact h.free column hc
    · exact fun hm => hfree column hc (ht ▸ List.mem_append_left _ hm)

theorem extension_addedBefore (position : Nat) :
    frame.Extension (frame.addedBefore names options position) := by
  induction position with
  | zero => exact Extension.nil frame
  | succ position ih =>
    rw [addedBefore_succ]
    cases frame.columns[position]? with
    | none => exact (List.append_nil (frame.addedBefore names options position)).symm ▸ ih
    | some source =>
      cases hc : source.strings? with
      | none => simpa only [hc, List.append_nil] using ih
      | some cells =>
        simp only [hc]
        exact ih.append (inv_derivedAt position source cells) Derived.rows_performAll
          Derived.taken_performAll

theorem extends_flatten (frame : Frame α) (names : NameMap) (options : Options) :
    (frame.flatten names options).value.Extends frame := by
  refine ⟨?_, ?_, _, columns_flatten, extension_addedBefore _⟩ <;>
  · rw [flatten, Traced.value_bind]
    split <;> rfl

/-- Frames are flattened one by one, with the names that the describer gives. -/
theorem value_flattenAll {σ : Type} (describer : Describer σ) (options : Options) (assetId : String)
    (frames : List (Frame α)) (state : σ) : ((flattenAll describer options assetId frames).run state).value.1 =
      frames.map fun frame => (frame.flatten ((describer.nameMap assetId).run state).value.1 options).value := by
  rw [flattenAll, StateT.run_bind, Traced.value_bind, StateT.run_bind, Traced.value_bind, StateT.run_lift,
    Traced.value_bind, flattenEach, Traced.value_mapM, Traced.value_pure]
  rfl

theorem forall₂_flattenAll {σ : Type} (describer : Describer σ) (options : Options) (assetId : String)
    (frames : List (Frame α)) (state : σ) : List.Forall₂ Preserves
      ((flattenAll describer options assetId frames).run state).value.1 frames := by
  rw [value_flattenAll, List.forall₂_map_left_iff, List.forall₂_same]
  exact fun frame _ => (extends_flatten frame _ options).preserves

end Frame

theorem Query.forall₂_respond {σ : Type} (query : Query) (describer : Describer σ) (options : Options)
    (frames : List (Frame α)) (state : σ) : List.Forall₂ Frame.Preserves
      ((query.respond describer options frames).run state).value.1 frames := by
  unfold respond
  split
  · exact Frame.forall₂_flattenAll describer options query.primaryAsset frames state
  · exact List.forall₂_same.2 fun frame _ => (Frame.Extends.refl frame).preserves

/-- One frame comes out for every frame that goes in, in order, and each preserves its own. -/
theorem Frame.flatten_preserves {σ : Type} (describer : Describer σ) (options : Options) :
    (∀ (names : NameMap) (frame : Frame α), (frame.flatten names options).value.Preserves frame) ∧
      (∀ (assetId : String) (frames : List (Frame α)) (state : σ), List.Forall₂ Preserves
        ((flattenAll describer options assetId frames).run state).value.1 frames) ∧
      ∀ (query : Query) (frames : List (Frame α)) (state : σ), List.Forall₂ Preserves
        ((query.respond describer options frames).run state).value.1 frames :=
  ⟨fun names frame => (extends_flatten frame names options).preserves,
    fun assetId frames state => forall₂_flattenAll describer options assetId frames state,
    fun query frames state => query.forall₂_respond describer options frames state⟩

end Unnest
