import ModuleBundler.Proofs.Path.RoundTrip

/-!
# Names of the operating system and texts of paths

A name of the operating system is cut into parts before anyone knows whether it is a text. Each part
is read as a text on its own and pushed on a builder, which cuts it once more. A text of a path is
cut as a text. Both give the same path, and a name is refused exactly if it is not a text as a whole
(`Path.ofOs_agrees`).

That the parts are texts if the whole is one, and the other way round, is a fact about UTF-8: the
byte of a slash spells a slash and nothing else, for all bytes of longer spellings are larger
(`Utf8.splitOn_encode`). The parts that are dropped need not be read for this, nor the steps up:
there is only one way to spell each of them, and it is text. What a text was cut into is not cut any
further (`Path.flatMap_split_pieces`).
-/

namespace ModuleBundler

namespace Utf8

variable {c : Char} {unit : UInt8} {bytes : Bytes}

/-- A byte below `0x80` spells a character of its own. -/
theorem toNat_eq_of_mem (h : unit ∈ String.utf8EncodeChar c) (hascii : unit.toNat < 0x80) :
    c.toNat = unit.toNat := by
  rw [utf8EncodeChar_eq] at h
  obtain ⟨value, hvalue, rfl⟩ := List.mem_map.1 h
  rw [UInt8.toNat_ofNat_of_lt' (lt_of_mem_units hvalue)] at hascii ⊢
  rw [units] at hvalue
  split_ifs at hvalue <;>
    simp only [List.mem_cons, List.not_mem_nil, or_false] at hvalue <;> omega

theorem separator_mem_iff : Component.separator ∈ String.utf8EncodeChar c ↔ c = '/' := by
  constructor
  · intro h
    have hslash : c.toNat = '/'.toNat := toNat_eq_of_mem h (by decide)
    rw [← Char.ofNat_toNat c, hslash, Char.ofNat_toNat]
  · rintro rfl
    decide

/-- Texts with slashes between them are spelled by their bytes, with the byte of a slash between
them. -/
theorem encode_intercalate (parts : List String) :
    encode ("/".intercalate parts) = [Component.separator].intercalate (parts.map encode) := by
  rcases parts with - | ⟨first, rest⟩
  · rfl
  · have hslash : "/".toList = ['/'] := rfl
    have hspelled : String.utf8EncodeChar '/' = [Component.separator] := by decide
    rw [encode, String.toList_intercalate, hslash, List.map_cons, List.map_cons, intercalate_cons,
      intercalate_cons, List.flatMap_append, List.flatMap_assoc, List.flatMap_map,
      List.flatMap_map]
    simp [encode, hspelled]

end Utf8

namespace Path

theorem intercalate_pieces (s : String) : "/".intercalate (pieces s) = s := by
  have hslash : "/".toList = ['/'] := rfl
  rw [← String.toList_inj, String.toList_intercalate, hslash, pieces, List.map_map]
  simp [Function.comp_def, List.intercalate_splitOn]

end Path

namespace Utf8

/-- **The bytes of a text are cut where the text is cut.** -/
theorem splitOn_encode (s : String) :
    (encode s).splitOn Component.separator = (Path.pieces s).map encode := by
  have hparts : ∀ part ∈ (Path.pieces s).map encode, Component.separator ∉ part := by
    simp only [Path.pieces, List.map_map, List.mem_map]
    rintro _ ⟨part, hpart, rfl⟩ hmem
    obtain ⟨c, hc, hslash⟩ := mem_encode.1 hmem
    rw [String.toList_ofList] at hc
    exact not_mem_of_mem_splitOn hpart (separator_mem_iff.1 hslash ▸ hc)
  have hne : (Path.pieces s).map encode ≠ [] := by simp [Path.pieces, List.splitOn_ne_nil]
  calc (encode s).splitOn Component.separator
      = ([Component.separator].intercalate ((Path.pieces s).map encode)).splitOn
          Component.separator := by rw [← encode_intercalate, Path.intercalate_pieces]
    _ = (Path.pieces s).map encode := List.splitOn_intercalate _ hparts hne

theorem encode_injective : Function.Injective encode := fun _ _ h ↦
  Option.some.inj ((decode?_eq_some.2 rfl).symm.trans (decode?_eq_some.2 h.symm))

/-- A text starts with the byte of a slash exactly if it starts with a slash. -/
theorem head?_encode (s : String) :
    (encode s).head? = some Component.separator ↔ s.toList.head? = some '/' := by
  rw [encode]
  rcases s.toList with - | ⟨c, rest⟩
  · simp
  · rw [List.flatMap_cons, List.head?_append_of_ne_nil _ String.utf8EncodeChar_ne_nil,
      List.head?_cons, Option.some_inj]
    refine ⟨fun h ↦ separator_mem_iff.1 (List.mem_of_mem_head? h), ?_⟩
    rintro rfl
    decide

end Utf8

namespace Path

open Component

variable {os piece : Bytes} {s : String} {p : Path} {e : Error}

/-! ### One part -/

/-- A part that is no segment is dropped, as it is from a text. -/
theorem ofPiece_encode_of_not_isSegment (h : isSegment s = false) :
    ofPiece (Utf8.encode s) = none ∧ split s = [] := by
  have hs : s = "" ∨ s = "." := by simpa [isSegment, or_iff_not_imp_left] using h
  rcases hs with rfl | rfl <;> exact ⟨by decide, by decide⟩

/-- A part that is a segment is pushed as a text. -/
theorem exists_ofPiece_encode (h : isSegment s = true) :
    ∃ component, ofPiece (Utf8.encode s) = some component ∧
      ∀ os b, Builder.pushPart os b component = .ok (b.push s) := by
  obtain ⟨hempty, hdot⟩ : s ≠ "" ∧ s ≠ "." := by simpa [isSegment] using h
  have hkept : ¬ (Utf8.encode s = [] ∨ Utf8.encode s = dot) := by
    rintro (hnil | hnil)
    · exact hempty (Utf8.encode_injective hnil)
    · exact hdot (Utf8.encode_injective hnil)
  rw [ofPiece, if_neg hkept]
  by_cases hup : Utf8.encode s = dotDot
  · obtain rfl : s = parentName := Utf8.encode_injective hup
    exact ⟨.parent, if_pos hup, fun _ _ ↦ rfl⟩
  · refine ⟨.normal (Utf8.encode s), if_neg hup, fun os b ↦ ?_⟩
    rw [Builder.pushPart, Utf8.decode?_eq_some.2 rfl]

/-- A part that can be read is a text, and so is one that is dropped. -/
theorem exists_encode_of_piece (os : Bytes)
    (h : ∀ component, ofPiece piece = some component →
      ∃ b b', Builder.pushPart os b component = .ok b') : ∃ s, Utf8.encode s = piece := by
  rw [ofPiece] at h
  split_ifs at h with hdropped hup
  · exact hdropped.elim (fun hnil ↦ ⟨"", hnil.symm⟩) fun hdot ↦ ⟨".", hdot.symm⟩
  · exact ⟨"..", hup.symm⟩
  · obtain ⟨b, b', hread⟩ := h _ rfl
    rw [Builder.pushPart] at hread
    split at hread
    · exact ⟨_, Utf8.decode?_eq_some.1 ‹_›⟩
    · cases hread

theorem eq_notUtf8_of_pushPart {component : Component} {b : Builder}
    (h : b.pushPart os component = .error e) : e = .invalidPath (.notUtf8 (Utf8.lossy os)) := by
  cases component with
  | root => cases h
  | current => cases h
  | parent => cases h
  | normal name =>
    rw [Builder.pushPart] at h
    split at h
    · cases h
    · exact (Except.error.inj h).symm

/-! ### All parts -/

/-- What stands in front of the parts adds nothing. -/
theorem ofOs_eq (os : Bytes) :
    ofOs os = (((os.splitOn separator).filterMap ofPiece).foldlM (Builder.pushPart os) {}).map
      fun b ↦ b.finish (os.head? = some separator) := by
  have hparts : (ofBytes os).foldlM (Builder.pushPart os) {} =
      ((os.splitOn separator).filterMap ofPiece).foldlM (Builder.pushPart os) {} := by
    rw [ofBytes]
    split_ifs <;> rfl
  rw [ofOs, hparts]
  rcases ((os.splitOn separator).filterMap ofPiece).foldlM (Builder.pushPart os) {} with e | b <;>
    rfl

/-- Parts that are texts add the segments of these texts. -/
theorem foldlM_pushPart (os : Bytes) (texts : List String) (b : Builder) :
    ((texts.map Utf8.encode).filterMap ofPiece).foldlM (Builder.pushPart os) b =
      .ok ⟨b.segments ++ texts.flatMap split⟩ := by
  induction texts generalizing b with
  | nil =>
    rw [List.flatMap_nil, List.append_nil]
    rfl
  | cons s texts ih =>
    rw [List.map_cons, List.flatMap_cons]
    rcases hs : isSegment s with - | -
    · -- a part that is dropped would not have added a segment either
      obtain ⟨hdropped, hsplit⟩ := ofPiece_encode_of_not_isSegment hs
      rw [List.filterMap_cons_none hdropped, ih, hsplit, List.nil_append]
    · obtain ⟨component, hcomponent, hpush⟩ := exists_ofPiece_encode hs
      rw [List.filterMap_cons_some hcomponent, List.foldlM_cons, hpush, ← List.append_assoc]
      refine (ih (b.push s)).trans ?_
      rw [Builder.push_eq]

/-- To cut the pieces of a text anew gives nothing more. -/
theorem flatMap_split_pieces (s : String) : (pieces s).flatMap split = split s := by
  have hpiece : ∀ piece ∈ pieces s, split piece = [piece].filter isSegment := by
    intro piece hpiece
    obtain ⟨part, hpart, rfl⟩ := List.mem_map.1 hpiece
    have hslash : '/' ∉ (String.ofList part).toList := by
      rw [String.toList_ofList]
      exact not_mem_of_mem_splitOn hpart
    rw [split, pieces_of_not_mem hslash]
  rw [List.flatMap_congr hpiece, ← List.filter_flatMap, List.flatMap_singleton', split]

/-- **A name that is a text is read as the text is.** -/
theorem ofOs_encode (s : String) : ofOs (Utf8.encode s) = .ok (parse s) := by
  have habsolute : decide ((Utf8.encode s).head? = some separator) =
      (s.toList.head? == some '/') := by
    rw [Bool.eq_iff_iff, decide_eq_true_iff, beq_iff_eq, Utf8.head?_encode]
  rw [ofOs_eq, Utf8.splitOn_encode, foldlM_pushPart, flatMap_split_pieces, Except.map, habsolute]
  rfl

/-- A name that is read is a text. -/
theorem exists_encode_of_ofOs (h : ofOs os = .ok p) : ∃ s, Utf8.encode s = os := by
  rw [ofOs_eq] at h
  rcases hread : ((os.splitOn separator).filterMap ofPiece).foldlM (Builder.pushPart os) {} with
    e | b
  · rw [hread] at h
    cases h
  · have htexts : ∀ piece ∈ os.splitOn separator, piece ∈ Set.range Utf8.encode :=
      fun piece hpiece ↦ exists_encode_of_piece os fun component hcomponent ↦
        exists_of_foldlM_eq_ok hread component (List.mem_filterMap.2 ⟨piece, hpiece, hcomponent⟩)
    obtain ⟨texts, htexts⟩ : os.splitOn separator ∈ Set.range (List.map Utf8.encode) := by
      rw [Set.range_list_map]
      exact htexts
    refine ⟨"/".intercalate texts, ?_⟩
    rw [Utf8.encode_intercalate, htexts, List.intercalate_splitOn]

/-- **A name that is no text is refused**, with the whole of it in the message. -/
theorem ofOs_eq_error (h : ∀ s, Utf8.encode s ≠ os) :
    ofOs os = .error (.invalidPath (.notUtf8 (Utf8.lossy os))) := by
  rcases hread : ofOs os with e | p
  · rw [ofOs_eq] at hread
    rcases hparts : ((os.splitOn separator).filterMap ofPiece).foldlM (Builder.pushPart os) {} with
      e' | b
    · rw [hparts] at hread
      obtain rfl := Except.error.inj hread
      obtain ⟨component, -, b, hcomponent⟩ := exists_of_foldlM_eq_error hparts
      rw [eq_notUtf8_of_pushPart hcomponent]
    · rw [hparts] at hread
      cases hread
  · obtain ⟨s, hs⟩ := exists_encode_of_ofOs hread
    exact absurd hs (h s)

/-! ### Names that are written for paths -/

/-- **A path with plain segments is read back from the name that is written for it.** -/
theorem ofOs_toOs (h : p.WellFormed) : ofOs p.toOs = .ok p := by
  rw [toOs, ofOs_encode]
  by_cases hempty : p.segments = []
  · obtain ⟨absolute, segments⟩ := p
    obtain rfl : segments = [] := hempty
    cases absolute <;> decide
  · have hwritten : p.toOsText = p.render := by
      simp [toOsText, render, hempty]
    rw [hwritten, parse_render h]

/-- **Names of the operating system and texts of paths agree.** A name that is the bytes of a text
is read as the path that the text names, and a name that is not is refused as an invalid path. Every
path with plain segments is read back from the name that is written for it. -/
theorem ofOs_agrees :
    (∀ s, ofOs (Utf8.encode s) = .ok (parse s)) ∧
    (∀ os, (∀ s, Utf8.encode s ≠ os) →
      ofOs os = .error (.invalidPath (.notUtf8 (Utf8.lossy os)))) ∧
    ∀ p : Path, p.WellFormed → ofOs p.toOs = .ok p :=
  ⟨ofOs_encode, fun _ ↦ ofOs_eq_error, fun _ ↦ ofOs_toOs⟩

/-- A name in which the last part is cut off in the middle of a character. -/
def cutOff : Bytes := [0x2F, 0x61, 0x2F, 0x2E, 0x2F, 0xC3]

/-- A name with doubled slashes and points is read as its text is, one that is cut off is refused,
and a path that leads up and names a file in two bytes for a letter is read back. -/
theorem ofOs_agrees_cutOff :
    ofOs (Utf8.encode "/.//a/../b/.") = .ok ⟨true, ["a", "..", "b"]⟩ ∧
    (∀ s, Utf8.encode s ≠ cutOff) ∧
    ofOs cutOff = .error (.invalidPath (.notUtf8 "/a/./\uFFFD")) ∧
    WellFormed ⟨false, ["..", "é.ts"]⟩ ∧
    ofOs (toOs ⟨false, ["..", "é.ts"]⟩) = .ok ⟨false, ["..", "é.ts"]⟩ := by
  have hnone : Utf8.decode? cutOff = none := by cbv
  have hcut : ∀ s, Utf8.encode s ≠ cutOff := by
    intro s hs
    rw [Utf8.decode?_eq_some.2 hs] at hnone
    cases hnone
  have hshown : Utf8.lossy cutOff = "/a/./\uFFFD" := by cbv
  have hparse : parse "/.//a/../b/." = ⟨true, ["a", "..", "b"]⟩ := by decide
  have hplain : WellFormed ⟨false, ["..", "é.ts"]⟩ := by decide
  obtain ⟨htext, hrefused, hback⟩ := ofOs_agrees
  exact ⟨hparse ▸ htext _, hcut, hshown ▸ hrefused _ hcut, hplain, hback _ hplain⟩

end Path

end ModuleBundler
