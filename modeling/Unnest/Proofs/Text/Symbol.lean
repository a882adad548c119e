import Unnest.Text.Symbol

/-!
# The symbols of an encoded text

`ofBytes_toUTF8`: splitting the bytes of a `String` gives its characters back and no stray byte. The scan
is followed one character at a time; it stands after the bytes `before` of those it has read.
-/

namespace Unnest.Text.Symbol

theorem scan_append (cs : List Char) (before : ByteArray) (fuel : Nat) (found : List Symbol)
    (hfuel : cs.utf8Encode.size ≤ fuel) :
    scan (before ++ cs.utf8Encode) fuel before.size found = (cs.map char).reverse ++ found := by
  induction cs generalizing before fuel found with
  | nil =>
    have hend : ¬ before.size < (before ++ ([] : List Char).utf8Encode).size := by simp
    cases fuel with
    | zero => rfl
    | succ fuel => rw [scan, dif_neg hend]; rfl
  | cons c cs ih =>
    have hpos := c.utf8Size_pos
    rw [List.utf8Encode_cons] at hfuel ⊢
    have hsize : [c].utf8Encode.size = c.utf8Size := by
      rw [List.utf8Encode_singleton, List.size_toByteArray, String.length_utf8EncodeChar]
    rw [ByteArray.size_append, hsize] at hfuel
    obtain ⟨fuel, rfl⟩ : ∃ n, fuel = n + 1 := ⟨fuel - 1, by omega⟩
    have hlt : before.size < (before ++ ([c].utf8Encode ++ cs.utf8Encode)).size := by
      simp only [ByteArray.size_append, hsize]
      omega
    have hdecode : (before ++ ([c].utf8Encode ++ cs.utf8Encode)).utf8DecodeChar? before.size = some c := by
      rw [ByteArray.utf8DecodeChar?_eq_utf8DecodeChar?_extract,
        ByteArray.extract_append_eq_right rfl ByteArray.size_append]
      exact List.utf8DecodeChar?_utf8Encode_singleton_append
    rw [scan, dif_pos hlt, hdecode]
    have hnext := ih (before ++ [c].utf8Encode) fuel (char c :: found) (by omega)
    rw [ByteArray.append_assoc, ByteArray.size_append, hsize] at hnext
    simpa using hnext

/-- A text that is encoded has no stray bytes. -/
theorem ofBytes_toUTF8 (s : String) : ofBytes s.toUTF8 = ofString s := by
  have hscan := scan_append s.toList .empty s.toUTF8.size [] (by simp)
  have hbytes : s.toList.utf8Encode = s.toUTF8 := by simp
  rw [hbytes, ByteArray.empty_append, ByteArray.size_empty] at hscan
  rw [ofBytes, hscan, List.append_nil, List.reverse_reverse, ofString]

end Unnest.Text.Symbol
