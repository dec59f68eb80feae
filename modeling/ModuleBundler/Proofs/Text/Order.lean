import ModuleBundler.Proofs.Text.Utf8

/-!
# Texts compare as their bytes do

Texts are compared character by character, and files and other programs compare bytes. Both
comparisons give the same answer, since UTF-8 keeps the order of code points: of two different
characters, the smaller one is spelled by the smaller bytes, and neither spelling begins with the
other (`Utf8.units_append_lt`). So a list of texts that is sorted is sorted bytewise
(`Utf8.encode_lt_encode_iff`).
-/

namespace ModuleBundler.Utf8

variable {s t : String}

/-- The smaller code point is spelled by the smaller bytes, whatever follows either. The spellings
differ at some byte: at the first one if they have different lengths. -/
theorem units_append_lt {a b : Nat} (h : a < b) (hb : b < 0x110000) (as bs : List Nat) :
    units a ++ as < units b ++ bs := by
  unfold units
  split_ifs <;>
    simp only [List.cons_append, List.nil_append, List.cons_lt_cons_iff] <;> omega

/-- Bytes compare as their numbers. -/
theorem lt_of_map_toNat_lt : ∀ {xs ys : Bytes}, xs.map UInt8.toNat < ys.map UInt8.toNat → xs < ys
  | xs, [], h => absurd h (List.not_lt_nil _)
  | [], y :: ys, _ => List.nil_lt_cons y ys
  | x :: xs, y :: ys, h => by
    rw [List.map_cons, List.map_cons, List.cons_lt_cons_iff] at h
    rcases h with hlt | ⟨heq, hrest⟩
    · exact List.cons_lt_cons_iff.2 (Or.inl hlt)
    · exact List.cons_lt_cons_iff.2 (Or.inr ⟨UInt8.toNat_inj.1 heq, lt_of_map_toNat_lt hrest⟩)

theorem utf8EncodeChar_append_lt {c d : Char} (h : c < d) (xs ys : Bytes) :
    String.utf8EncodeChar c ++ xs < String.utf8EncodeChar d ++ ys := by
  have hbound : d.toNat < 0x110000 := by
    have := toNat_cases d
    omega
  refine lt_of_map_toNat_lt ?_
  rw [List.map_append, List.map_append, eq_utf8EncodeChar_iff.1 rfl, eq_utf8EncodeChar_iff.1 rfl]
  exact units_append_lt h hbound _ _

theorem flatMap_utf8EncodeChar_lt : ∀ {cs ds : List Char}, cs < ds →
    cs.flatMap String.utf8EncodeChar < ds.flatMap String.utf8EncodeChar
  | cs, [], h => absurd h (List.not_lt_nil cs)
  | [], d :: ds, _ => by
    obtain ⟨first, tail, hspelled⟩ :=
      List.exists_cons_of_ne_nil (String.utf8EncodeChar_ne_nil (c := d))
    rw [List.flatMap_nil, List.flatMap_cons, hspelled, List.cons_append]
    exact List.nil_lt_cons _ _
  | c :: cs, d :: ds, h => by
    rw [List.flatMap_cons, List.flatMap_cons]
    rcases List.cons_lt_cons_iff.1 h with hlt | ⟨rfl, hrest⟩
    · exact utf8EncodeChar_append_lt hlt _ _
    · exact List.append_left_lt (flatMap_utf8EncodeChar_lt hrest)

/-- **Texts compare as their bytes do.** -/
theorem encode_lt_encode_iff : encode s < encode t ↔ s < t := by
  have hmono : ∀ {s t : String}, s < t → encode s < encode t := fun h ↦
    flatMap_utf8EncodeChar_lt (String.lt_iff_toList_lt.1 h)
  refine ⟨fun h ↦ ?_, hmono⟩
  rcases lt_trichotomy s t with hlt | rfl | hgt
  · exact hlt
  · exact absurd h (List.lt_irrefl _)
  · exact absurd h (List.lt_asymm (hmono hgt))

end ModuleBundler.Utf8
