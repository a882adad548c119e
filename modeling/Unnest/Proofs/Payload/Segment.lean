import Mathlib.Data.List.TakeWhile
import Unnest.Payload.Segment

/-!
# Which names hold an identifier

A segment of a name stands between backslashes, so it has none in it. Under `index1` the identifier follows the
first backslash and ends at the next one or with the name (`segment_index1_iff`); under `last` it follows the last
backslash, whatever stands before that (`segment_last_iff`). A name with one backslash has only one segment to
choose (`segment_of_count`). `propertyId?_grammar` says this of names and identifiers as they are written.
-/

namespace Unnest.SegmentRule
variable {front back seg cs : List Char}

/-- What holds no backslash passes the test of a segment's characters. -/
theorem forall_ne_of_not_mem (h : '\\' ∉ cs) : ∀ c ∈ cs, decide (c ≠ '\\') = true := by
  rintro c hc
  have hne : c ≠ '\\' := by
    rintro rfl
    exact h hc
  exact decide_eq_true hne

theorem firstSegment_of_not_mem (h : '\\' ∉ cs) : firstSegment cs = cs := by
  unfold firstSegment
  rw [List.takeWhile_eq_self_iff]
  exact forall_ne_of_not_mem h

theorem firstSegment_append (h : '\\' ∉ front) (back : List Char) :
    firstSegment (front ++ '\\' :: back) = front := by
  unfold firstSegment
  rw [List.takeWhile_append_of_pos (forall_ne_of_not_mem h), List.takeWhile_cons_of_neg (by simp), List.append_nil]

theorem afterRoot_of_not_mem (h : '\\' ∉ cs) : afterRoot cs = [] := by
  unfold afterRoot
  rw [List.dropWhile_eq_nil_iff.2 (forall_ne_of_not_mem h), List.drop_nil]

theorem afterRoot_append (h : '\\' ∉ front) (back : List Char) : afterRoot (front ++ '\\' :: back) = back := by
  unfold afterRoot
  rw [List.dropWhile_append_of_pos (forall_ne_of_not_mem h), List.dropWhile_cons_of_neg (by simp), List.drop_one,
    List.tail_cons]

/-- Characters have a root, up to the first backslash, if they have a backslash at all. -/
theorem exists_root (cs : List Char) :
    '\\' ∉ cs ∨ ∃ root back, '\\' ∉ root ∧ cs = root ++ '\\' :: back := by
  by_cases h : '\\' ∈ cs
  · obtain ⟨root, back, rfl, hroot⟩ := List.eq_append_cons_of_mem h
    exact .inr ⟨root, back, hroot, rfl⟩
  · exact .inl h

/-- The segment after the last backslash, or all there is. -/
theorem lastSegment_append (h : '\\' ∉ seg) (front : List Char) :
    (firstSegment (front ++ '\\' :: seg).reverse).reverse = seg := by
  have hreverse : (front ++ '\\' :: seg).reverse = seg.reverse ++ '\\' :: front.reverse := by simp
  rw [hreverse, firstSegment_append (by simpa using h), List.reverse_reverse]

theorem lastSegment_of_not_mem (h : '\\' ∉ seg) : (firstSegment seg.reverse).reverse = seg := by
  rw [firstSegment_of_not_mem (by simpa using h), List.reverse_reverse]

theorem exists_lastSegment (cs : List Char) :
    '\\' ∉ cs ∨ ∃ front seg, '\\' ∉ seg ∧ cs = front ++ '\\' :: seg := by
  rcases exists_root cs.reverse with h | ⟨seg, front, hseg, hcs⟩
  · exact .inl (by simpa using h)
  · refine .inr ⟨front.reverse, seg.reverse, by simpa using hseg, ?_⟩
    rw [← List.reverse_reverse cs, hcs]
    simp

/-! ### The segment that a rule chooses -/

theorem segment_index1_iff (hne : seg ≠ []) : index1.segment cs = seg ↔
    '\\' ∉ seg ∧ ∃ root, '\\' ∉ root ∧
      (cs = root ++ '\\' :: seg ∨ ∃ rest, cs = root ++ '\\' :: (seg ++ '\\' :: rest)) := by
  show firstSegment (afterRoot cs) = seg ↔ _
  constructor
  · rintro rfl
    rcases exists_root cs with h | ⟨root, back, hroot, rfl⟩
    · exact absurd (by rw [afterRoot_of_not_mem h]; rfl) hne
    · rw [afterRoot_append hroot]
      rcases exists_root back with h | ⟨id, rest, hid, rfl⟩
      · rw [firstSegment_of_not_mem h]
        exact ⟨h, root, hroot, .inl rfl⟩
      · rw [firstSegment_append hid]
        exact ⟨hid, root, hroot, .inr ⟨rest, rfl⟩⟩
  · rintro ⟨hseg, root, hroot, rfl | ⟨rest, rfl⟩⟩
    · rw [afterRoot_append hroot, firstSegment_of_not_mem hseg]
    · rw [afterRoot_append hroot, firstSegment_append hseg]

theorem segment_last_iff (hne : seg ≠ []) :
    last.segment cs = seg ↔ '\\' ∉ seg ∧ ∃ front, cs = front ++ '\\' :: seg := by
  show (firstSegment (afterRoot cs).reverse).reverse = seg ↔ _
  constructor
  · rintro rfl
    rcases exists_root cs with h | ⟨root, back, hroot, rfl⟩
    · exact absurd (by rw [afterRoot_of_not_mem h]; rfl) hne
    · rw [afterRoot_append hroot]
      rcases exists_lastSegment back with h | ⟨front, id, hid, rfl⟩
      · rw [lastSegment_of_not_mem h]
        exact ⟨h, root, rfl⟩
      · rw [lastSegment_append hid]
        exact ⟨hid, root ++ '\\' :: front, by simp⟩
  · rintro ⟨hseg, front, rfl⟩
    -- the backslash before the segment may be the first one
    rcases exists_root front with h | ⟨root, back, hroot, rfl⟩
    · rw [afterRoot_append h, lastSegment_of_not_mem hseg]
    · rw [List.append_assoc, List.cons_append, afterRoot_append hroot, lastSegment_append hseg]

theorem segment_of_count (h : cs.count '\\' = 1) : index1.segment cs = last.segment cs := by
  show firstSegment (afterRoot cs) = (firstSegment (afterRoot cs).reverse).reverse
  rcases exists_root cs with hno | ⟨root, back, hroot, rfl⟩
  · rw [List.count_eq_zero.2 hno] at h
    cases h
  · have hback : '\\' ∉ back := by
      rw [List.count_append, List.count_cons_self, List.count_eq_zero.2 hroot] at h
      rw [← List.count_eq_zero]
      omega
    rw [afterRoot_append hroot, firstSegment_of_not_mem hback, lastSegment_of_not_mem hback]

/-! ### Names and identifiers -/

variable {rule : SegmentRule} {name id : String}

theorem propertyId?_eq_some :
    rule.propertyId? name = some id ↔ id ≠ "" ∧ rule.segment name.toList = id.toList := by
  have hempty : id ≠ "" ↔ id.toList ≠ [] := by simp
  rw [hempty, propertyId?]
  cases rule.segment name.toList with
  | nil => simp
  | cons c cs =>
    show some (String.ofList (c :: cs)) = some id ↔ _
    rw [Option.some_inj]
    constructor
    · rintro rfl
      simp
    · rintro ⟨-, h⟩
      rw [h, String.ofList_toList]

/-- Every list of characters is that of a text. -/
theorem exists_toList {p : List Char → Prop} : (∃ cs, p cs) ↔ ∃ s : String, p s.toList := by
  constructor
  · rintro ⟨cs, hcs⟩
    exact ⟨String.ofList cs, by rwa [String.toList_ofList]⟩
  · rintro ⟨s, hs⟩
    exact ⟨s.toList, hs⟩

theorem eq_append_iff {front back : String} :
    name = front ++ "\\" ++ back ↔ name.toList = front.toList ++ '\\' :: back.toList := by
  rw [← String.toList_inj]
  simp

/-- Which identifier a name holds under either rule, and that the rules agree on names with one backslash. -/
theorem propertyId?_grammar (name id : String) :
    (index1.propertyId? name = some id ↔ id ≠ "" ∧ '\\' ∉ id.toList ∧ ∃ root : String, '\\' ∉ root.toList ∧
        (name = root ++ "\\" ++ id ∨ ∃ rest : String, name = root ++ "\\" ++ id ++ "\\" ++ rest)) ∧
      (last.propertyId? name = some id ↔
        id ≠ "" ∧ '\\' ∉ id.toList ∧ ∃ front : String, name = front ++ "\\" ++ id) ∧
      (name.toList.count '\\' = 1 → index1.propertyId? name = last.propertyId? name) := by
  have hmark : "\\".toList = ['\\'] := rfl
  refine ⟨?_, ?_, fun h => ?_⟩
  · rw [propertyId?_eq_some, and_congr_right_iff]
    intro hid
    rw [segment_index1_iff (by simpa using hid), exists_toList]
    simp only [exists_toList, eq_append_iff, String.toList_append, hmark, List.append_assoc, List.cons_append,
      List.nil_append]
  · rw [propertyId?_eq_some, and_congr_right_iff]
    intro hid
    rw [segment_last_iff (by simpa using hid), exists_toList]
    simp only [eq_append_iff]
  · rw [propertyId?, propertyId?, segment_of_count h]

theorem propertyId?_grammar_sample : ("root\\prop-1".toList.count '\\' = 1) ∧
    index1.propertyId? "root\\prop-1" = last.propertyId? "root\\prop-1" :=
  ⟨by decide, (propertyId?_grammar "root\\prop-1" "prop-1").2.2 (by decide)⟩

end Unnest.SegmentRule
