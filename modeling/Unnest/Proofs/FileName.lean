import Unnest.Frame.Basic
import Unnest.Proofs.Files.Tree

/-!
# Names of table files

A `plain` name is never empty, has as many characters as the name that it is made from, and stays as it is when
it is made plain again. The name of a table file is the plain name of the input, the index, the plain name of the
frame and the extension, with hyphens between; the first hyphen after the input ends the index, whatever the
names, so one index never gives the file of another (`table_index`).

`components` is a path as a list of names: slashes that repeat or stand at the end make none. The path of a table
file has those of its directory and one more (`components_join`), which has plain characters before its extension
(`tablePath_contained`).
-/

namespace Unnest.FileName

/-! ### Plain names -/

theorem isPlain_of_mem_plain {name : String} {c : Char} (h : c ∈ (plain name).toList) : isPlain c = true := by
  rw [plain] at h
  split at h
  · exact List.all_eq_true.1 (rfl : "frame".toList.all isPlain = true) c h
  · rw [String.toList_ofList] at h
    obtain ⟨d, -, rfl⟩ := List.mem_map.1 h
    split
    · assumption
    · rfl

theorem length_plain (name : String) : (plain name).length = if name = "" then 5 else name.length := by
  rw [plain]
  by_cases h : name = ""
  · rw [if_pos h, if_pos (String.isEmpty_iff.2 h)]
    rfl
  · rw [if_neg h, if_neg (mt String.isEmpty_iff.1 h), String.length_ofList, List.length_map, String.length_toList]

theorem plain_ne_empty (name : String) : plain name ≠ "" := by
  intro h
  have hlength := length_plain name
  rw [h] at hlength
  split at hlength
  · cases hlength
  · rename_i hne
    exact hne (String.length_eq_zero_iff.1 hlength.symm)

theorem plain_eq_self {name : String} (hne : name ≠ "") (h : ∀ c ∈ name.toList, isPlain c = true) :
    plain name = name := by
  rw [plain, if_neg (mt String.isEmpty_iff.1 hne)]
  have hchars : name.toList.map (fun c => if isPlain c then c else '_') = name.toList :=
    (List.map_congr_left fun c hc => if_pos (h c hc)).trans (List.map_id' _)
  rw [hchars, String.ofList_toList]

theorem plain_plain (name : String) : plain (plain name) = plain name :=
  plain_eq_self (plain_ne_empty name) fun _ => isPlain_of_mem_plain

/-! ### Names with an index -/

theorem toList_index (index : Nat) : (toString index).toList = Nat.toDigits 10 index := Nat.toList_repr

theorem isDigit_of_mem_index {index : Nat} {c : Char} (h : c ∈ (toString index).toList) : c.isDigit = true := by
  rw [toList_index] at h
  exact Nat.isDigit_of_mem_toDigits (by decide) (by decide) h

/-- An index is known from what stands before the first hyphen. -/
theorem index_of_append {i j : Nat} {back back' : List Char}
    (h : (toString i).toList ++ '-' :: back = (toString j).toList ++ '-' :: back') : i = j := by
  have hcut : ∀ (n : Nat) (rest : List Char),
      ((toString n).toList ++ '-' :: rest).takeWhile Char.isDigit = (toString n).toList := by
    intro n rest
    rw [List.takeWhile_append_of_pos fun c hc => isDigit_of_mem_index hc, List.takeWhile_cons_of_neg (by decide),
      List.append_nil]
  have hdigits : (toString i).toList = (toString j).toList := by rw [← hcut i back, h, hcut j back']
  rw [toList_index, toList_index] at hdigits
  rw [← Nat.ofDigitChars_ten_toDigits (n := i), hdigits, Nat.ofDigitChars_ten_toDigits]

theorem toList_table (input : String) (index : Nat) (frame : String) :
    (table input index frame).toList = (plain input ++ "-").toList ++
      ((toString index).toList ++ '-' :: ((plain frame).toList ++ ".parquet".toList)) := by
  simp [table]

theorem table_index {input frame frame' : String} {i j : Nat} (h : table input i frame = table input j frame') :
    i = j := by
  have hlist := congrArg String.toList h
  rw [toList_table, toList_table, List.append_cancel_left_eq] at hlist
  exact index_of_append hlist

/-- A table file is called by plain characters and its extension. -/
theorem exists_table (input : String) (index : Nat) (frame : String) :
    ∃ name : List Char, (table input index frame).toList = name ++ ".parquet".toList ∧
      ∀ c ∈ name, isPlain c = true := by
  refine ⟨(plain input ++ "-").toList ++ ((toString index).toList ++ '-' :: (plain frame).toList), ?_, ?_⟩
  · simp [toList_table]
  · intro c hc
    rw [String.toList_append] at hc
    simp only [List.mem_append, List.mem_cons] at hc
    rcases hc with (hc | hc) | hc | rfl | hc
    · exact isPlain_of_mem_plain hc
    · exact List.all_eq_true.1 (rfl : "-".toList.all isPlain = true) c hc
    · have hdigit := isDigit_of_mem_index hc
      simp [isPlain, Char.isAlphanum, hdigit]
    · rfl
    · exact isPlain_of_mem_plain hc

theorem slash_not_mem_table (input : String) (index : Nat) (frame : String) :
    '/' ∉ (table input index frame).toList := by
  obtain ⟨name, hname, hplain⟩ := exists_table input index frame
  rw [hname, List.mem_append]
  exact not_or.2 ⟨fun h => absurd (hplain _ h) (by decide), by decide⟩

/-! ### Paths of files -/

/-- Whether a path starts at the root, and the names in it. -/
def components (path : String) : Bool × List (List Char) :=
  (path.toList.head? = some '/', (Text.pieces '/' path.toList).filter fun name => !name.isEmpty)

theorem components_join (directory : String) {name : String} (hslash : '/' ∉ name.toList) (hne : name ≠ "") :
    components (join directory name) = ((components directory).1, (components directory).2 ++ [name.toList]) := by
  have hfirst : name.toList.head? ≠ some '/' := fun h => hslash (List.mem_of_head? h)
  -- however the two are joined, the name is the last piece, and the pieces before it are those of the directory
  have hpieces : (Text.pieces '/' (join directory name).toList).filter (fun piece => !piece.isEmpty) =
      (components directory).2 ++ [name.toList] := by
    have hlast : [name.toList].filter (fun piece => !piece.isEmpty) = [name.toList] := by simp [hne]
    rw [join, if_neg hfirst, components]
    split
    · rename_i hend
      rcases Bool.or_eq_true_iff.1 hend with hempty | hslash'
      · rw [String.isEmpty_iff.1 hempty, String.empty_append, FileTree.pieces_of_not_mem hslash, hlast]
        rfl
      · obtain ⟨front, hfront⟩ := List.getLast?_eq_some_iff.1 (of_decide_eq_true hslash')
        rw [String.toList_append, hfront, List.append_assoc, List.singleton_append, FileTree.pieces_append,
          FileTree.pieces_append, FileTree.pieces_of_not_mem hslash, List.filter_append, List.filter_append, hlast]
        simp [Text.pieces]
    · rw [String.toList_append, String.toList_append, List.append_assoc]
      refine (congrArg _ (FileTree.pieces_append '/' directory.toList name.toList)).trans ?_
      rw [FileTree.pieces_of_not_mem hslash, List.filter_append, hlast]
  have hhead : (join directory name).toList.head? = some '/' ↔ directory.toList.head? = some '/' := by
    rw [join, if_neg hfirst]
    by_cases hempty : directory = ""
    · subst hempty
      simp [hfirst]
    · obtain ⟨c, cs, hcs⟩ := List.exists_cons_of_ne_nil (mt String.toList_eq_nil_iff.1 hempty)
      split <;> simp [hcs]
  rw [components, hpieces, decide_eq_decide.2 hhead]
  rfl

/-- Names that lead into a directory are joined to it in different ways. -/
theorem join_inj {directory name name' : String} (hname : '/' ∉ name.toList) (hname' : '/' ∉ name'.toList)
    (h : join directory name = join directory name') : name = name' := by
  rw [join, join, if_neg fun hh => hname (List.mem_of_head? hh), if_neg fun hh => hname' (List.mem_of_head? hh)] at h
  split at h
  · exact (String.append_right_inj directory).1 h
  · exact (String.append_right_inj (directory ++ "/")).1 h

/-- The files of the frames of an input have different names of plain characters, directly in the directory. -/
theorem tablePath_contained :
    (∀ {α : Type} (directory input : String) (frames : List (Frame α)),
      (frames.mapIdx fun index frame => tablePath directory input index frame.name).Nodup) ∧
    (∀ (directory input : String) (index : Nat) (frame : String), ∃ name : List Char,
      (∀ c ∈ name, isPlain c = true) ∧
        components (tablePath directory input index frame) =
          ((components directory).1, (components directory).2 ++ [name ++ ".parquet".toList])) ∧
    ∀ name : String, plain name ≠ "" ∧ (name ≠ "" → (plain name).length = name.length) ∧
      plain (plain name) = plain name := by
  refine ⟨?_, ?_, ?_⟩
  · intro α directory input frames
    rw [List.nodup_iff_pairwise_ne, List.pairwise_iff_getElem]
    intro i j hi hj hlt h
    rw [List.getElem_mapIdx, List.getElem_mapIdx] at h
    have htable := join_inj (slash_not_mem_table _ _ _) (slash_not_mem_table _ _ _) h
    exact Nat.ne_of_lt hlt (table_index htable)
  · intro directory input index frame
    obtain ⟨name, hname, hplain⟩ := exists_table input index frame
    refine ⟨name, hplain, ?_⟩
    have hne : table input index frame ≠ "" := by
      intro h
      rw [h] at hname
      simp at hname
    rw [tablePath, components_join directory (slash_not_mem_table input index frame) hne, hname]
  · intro name
    refine ⟨plain_ne_empty name, fun hne => ?_, plain_plain name⟩
    rw [length_plain, if_neg hne]

end Unnest.FileName
