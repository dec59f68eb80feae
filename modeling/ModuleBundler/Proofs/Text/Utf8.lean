import Mathlib
import ModuleBundler.Text.Utf8

/-!
# What is read is what was written

`Utf8.decode` reads exactly the byte strings that `Utf8.encode` writes, and answers with the text
that was written (`Utf8.decode_eq_ok`). To be text is therefore nothing but to be the bytes of a
text, and whoever has read a text knows its bytes.

The two sides meet in the code point. Writing cuts it into groups of six bits (`Utf8.units`), and
reading puts the groups together again; for each number of bytes, one lemma says that this gives
back the bytes that were read and a code point that is a character. The bounds that the table `lead`
puts on the second byte are what makes it true: without them, two byte strings would spell one
character, or one would spell none.
-/

namespace ModuleBundler.Utf8

variable {b : UInt8} {c : Char} {value seen owed : Nat} {low high : UInt8} {bytes rest : Bytes}
  {cut : List Piece} {cs : List Char} {s : String}

/-! ### Code points and their bytes -/

/-- The bytes that spell a code point, as numbers. -/
def units (value : Nat) : List Nat :=
  if value ≤ 0x7F then [value]
  else if value ≤ 0x7FF then [value / 64 + 0xC0, value % 64 + 0x80]
  else if value ≤ 0xFFFF then [value / 4096 + 0xE0, value / 64 % 64 + 0x80, value % 64 + 0x80]
  else
    [value / 262144 + 0xF0, value / 4096 % 64 + 0x80, value / 64 % 64 + 0x80, value % 64 + 0x80]

/-- The code points of characters: surrogates are none. -/
theorem toNat_cases (c : Char) : c.toNat < 0xD800 ∨ 0xDFFF < c.toNat ∧ c.toNat < 0x110000 :=
  c.valid

theorem utf8EncodeChar_eq (c : Char) :
    String.utf8EncodeChar c = (units c.toNat).map UInt8.ofNat := by
  have hvalid := toNat_cases c
  have hfour : c.toNat / 262144 % 8 = c.toNat / 262144 := by omega
  have hval : c.val.toNat = c.toNat := rfl
  simp only [String.utf8EncodeChar, hval, units, hfour]
  split
  · rfl
  · split
    · have htwo : c.toNat / 64 % 32 = c.toNat / 64 := by omega
      rw [htwo]
      rfl
    · split
      · have hthree : c.toNat / 4096 % 16 = c.toNat / 4096 := by omega
        rw [hthree]
        rfl
      · rfl

theorem lt_of_mem_units {unit : Nat} (h : unit ∈ units c.toNat) : unit < 256 := by
  have hvalid := toNat_cases c
  rw [units] at h
  split_ifs at h <;> simp only [List.mem_cons, List.not_mem_nil, or_false] at h <;> omega

/-- Bytes spell a character if their numbers are those of its code point. -/
theorem eq_utf8EncodeChar_iff :
    bytes = String.utf8EncodeChar c ↔ bytes.map UInt8.toNat = units c.toNat := by
  rw [utf8EncodeChar_eq]
  constructor
  · rintro rfl
    rw [List.map_map, List.map_congr_left fun unit hunit ↦ ?_, List.map_id]
    exact UInt8.toNat_ofNat_of_lt' (lt_of_mem_units hunit)
  · intro h
    rw [← h, List.map_map]
    simp [Function.comp_def]

theorem eq_utf8EncodeChar (hvalue : value.isValidChar ∧ units value = bytes.map UInt8.toNat) :
    bytes = String.utf8EncodeChar (Char.ofNat value) := by
  rw [eq_utf8EncodeChar_iff, Char.toNat_ofNat, if_pos hvalue.1, hvalue.2]

theorem units_two {a x : Nat} (ha : 0xC2 ≤ a ∧ a ≤ 0xDF) (hx : 0x80 ≤ x) (hx' : x ≤ 0xBF) :
    ((a - 0xC0) * 64 + (x - 0x80)).isValidChar ∧
      units ((a - 0xC0) * 64 + (x - 0x80)) = [a, x] := by
  refine ⟨Or.inl (by omega), ?_⟩
  rw [units, if_neg (by omega), if_pos (by omega)]
  simp only [List.cons.injEq, and_true]
  omega

theorem units_three {a x y : Nat} (ha : 0xE0 ≤ a ∧ a ≤ 0xEF)
    (hx : (if a = 0xE0 then 0xA0 else 0x80) ≤ x) (hx' : x ≤ if a = 0xED then 0x9F else 0xBF)
    (hy : 0x80 ≤ y) (hy' : y ≤ 0xBF) :
    (((a - 0xE0) * 64 + (x - 0x80)) * 64 + (y - 0x80)).isValidChar ∧
      units (((a - 0xE0) * 64 + (x - 0x80)) * 64 + (y - 0x80)) = [a, x, y] := by
  have hbounds : 0x80 ≤ x ∧ x ≤ 0xBF ∧ (a = 0xE0 → 0xA0 ≤ x) ∧ (a = 0xED → x ≤ 0x9F) := by
    split at hx <;> split at hx' <;> omega
  refine ⟨by rw [Nat.isValidChar]; omega, ?_⟩
  rw [units, if_neg (by omega), if_neg (by omega), if_pos (by omega)]
  simp only [List.cons.injEq, and_true]
  omega

theorem units_four {a x y z : Nat} (ha : 0xF0 ≤ a ∧ a ≤ 0xF4)
    (hx : (if a = 0xF0 then 0x90 else 0x80) ≤ x) (hx' : x ≤ if a = 0xF4 then 0x8F else 0xBF)
    (hy : 0x80 ≤ y) (hy' : y ≤ 0xBF) (hz : 0x80 ≤ z) (hz' : z ≤ 0xBF) :
    ((((a - 0xF0) * 64 + (x - 0x80)) * 64 + (y - 0x80)) * 64 + (z - 0x80)).isValidChar ∧
      units ((((a - 0xF0) * 64 + (x - 0x80)) * 64 + (y - 0x80)) * 64 + (z - 0x80)) =
        [a, x, y, z] := by
  have hbounds : 0x80 ≤ x ∧ x ≤ 0xBF ∧ (a = 0xF0 → 0x90 ≤ x) ∧ (a = 0xF4 → x ≤ 0x8F) := by
    split at hx <;> split at hx' <;> omega
  refine ⟨by rw [Nat.isValidChar]; omega, ?_⟩
  rw [units, if_neg (by omega), if_neg (by omega), if_neg (by omega)]
  simp only [List.cons.injEq, and_true]
  omega

/-! ### One character -/

theorem tails_zero : tails value seen 0 low high bytes = (.char c, rest) ↔
    Char.ofNat value = c ∧ bytes = rest := by
  simp [tails]

theorem tails_succ : tails value seen (owed + 1) low high bytes = (.char c, rest) ↔
    ∃ b more, bytes = b :: more ∧ low.toNat ≤ b.toNat ∧ b.toNat ≤ high.toNat ∧
      tails (value * 64 + (b.toNat - 0x80)) (seen + 1) owed 0x80 0xBF more = (.char c, rest) := by
  rcases bytes with - | ⟨b, more⟩
  · simp [tails]
  · by_cases h : low ≤ b ∧ b ≤ high
    · rw [tails, if_pos h]
      refine ⟨fun htails ↦ ⟨b, more, rfl, h.1, h.2, htails⟩, ?_⟩
      rintro ⟨b', more', hbytes, -, -, htails⟩
      obtain ⟨rfl, rfl⟩ := List.cons.inj hbytes
      exact htails
    · rw [tails, if_neg h]
      refine iff_of_false (by simp) ?_
      rintro ⟨b', more', hbytes, hlow, hhigh, -⟩
      obtain ⟨rfl, -⟩ := List.cons.inj hbytes
      exact h ⟨hlow, hhigh⟩

/-- The table of first bytes, by the number of bytes that they owe. -/
theorem lead_eq : ∀ b : UInt8, lead b =
    if 0xC2 ≤ b.toNat ∧ b.toNat ≤ 0xDF then some (1, 0x80, 0xBF, b.toNat - 0xC0)
    else if 0xE0 ≤ b.toNat ∧ b.toNat ≤ 0xEF then
      some (2, if b.toNat = 0xE0 then 0xA0 else 0x80, if b.toNat = 0xED then 0x9F else 0xBF,
        b.toNat - 0xE0)
    else if 0xF0 ≤ b.toNat ∧ b.toNat ≤ 0xF4 then
      some (3, if b.toNat = 0xF0 then 0x90 else 0x80, if b.toNat = 0xF4 then 0x8F else 0xBF,
        b.toNat - 0xF0)
    else none := by
  decide +kernel

/-- A character that is read was spelled by the bytes that it was read from. -/
theorem eq_append_of_front (h : front b bytes = (.char c, rest)) :
    b :: bytes = String.utf8EncodeChar c ++ rest := by
  rw [front] at h
  by_cases hascii : b < 0x80
  · have hlt : b.toNat < 0x80 := hascii
    rw [if_pos hascii] at h
    simp only [Prod.mk.injEq, Piece.char.injEq] at h
    obtain ⟨rfl, rfl⟩ := h
    have hone : units b.toNat = [b].map UInt8.toNat := if_pos (by omega)
    rw [← eq_utf8EncodeChar ⟨Or.inl (by omega), hone⟩]
    rfl
  -- one case for each row of the table, with as many bytes behind as the first one owes
  rw [if_neg hascii, lead_eq] at h
  by_cases htwo : 0xC2 ≤ b.toNat ∧ b.toNat ≤ 0xDF
  · rw [if_pos htwo] at h
    obtain ⟨x, more, rfl, hx, hx', h⟩ := tails_succ.1 h
    obtain ⟨rfl, rfl⟩ := tails_zero.1 h
    have hspelled : [b, x] = String.utf8EncodeChar _ := eq_utf8EncodeChar (units_two htwo hx hx')
    rw [← hspelled]
    rfl
  rw [if_neg htwo] at h
  by_cases hthree : 0xE0 ≤ b.toNat ∧ b.toNat ≤ 0xEF
  · rw [if_pos hthree] at h
    obtain ⟨x, more, rfl, hx, hx', h⟩ := tails_succ.1 h
    obtain ⟨y, more, rfl, hy, hy', h⟩ := tails_succ.1 h
    obtain ⟨rfl, rfl⟩ := tails_zero.1 h
    rw [apply_ite UInt8.toNat] at hx hx'
    have hspelled : [b, x, y] = String.utf8EncodeChar _ :=
      eq_utf8EncodeChar (units_three hthree hx hx' hy hy')
    rw [← hspelled]
    rfl
  rw [if_neg hthree] at h
  by_cases hfour : 0xF0 ≤ b.toNat ∧ b.toNat ≤ 0xF4
  · rw [if_pos hfour] at h
    obtain ⟨x, more, rfl, hx, hx', h⟩ := tails_succ.1 h
    obtain ⟨y, more, rfl, hy, hy', h⟩ := tails_succ.1 h
    obtain ⟨z, more, rfl, hz, hz', h⟩ := tails_succ.1 h
    obtain ⟨rfl, rfl⟩ := tails_zero.1 h
    rw [apply_ite UInt8.toNat] at hx hx'
    have hspelled : [b, x, y, z] = String.utf8EncodeChar _ :=
      eq_utf8EncodeChar (units_four hfour hx hx' hy hy' hz hz')
    rw [← hspelled]
    rfl
  · rw [if_neg hfour] at h
    cases h

/-- The bytes that spell a character are read as this character, whatever follows them. -/
theorem front_append {tail : Bytes} (h : b :: tail = String.utf8EncodeChar c) :
    front b (tail ++ rest) = (.char c, rest) := by
  rw [eq_utf8EncodeChar_iff, units] at h
  have hvalid := toNat_cases c
  have hascii : b < 0x80 ↔ b.toNat < 0x80 := Iff.rfl
  have h80 : (0x80 : UInt8).toNat = 0x80 := rfl
  have hBF : (0xBF : UInt8).toNat = 0xBF := rfl
  have hc (value : Nat) (hvalue : value = c.toNat) : Char.ofNat value = c :=
    hvalue ▸ Char.ofNat_toNat c
  split_ifs at h with hone htwo hthree <;>
    simp only [List.map_cons, List.cons.injEq, List.map_eq_cons_iff, List.map_eq_nil_iff] at h
  · obtain ⟨hb, rfl⟩ := h
    rw [front, if_pos (hascii.2 (by omega)), hb, Char.ofNat_toNat]
    rfl
  · obtain ⟨hb, x, tail, rfl, hx, rfl⟩ := h
    rw [front, if_neg (hascii.not.2 (by omega)), lead_eq, if_pos (by omega)]
    exact tails_succ.2 ⟨x, rest, rfl, by omega, by omega,
      tails_zero.2 ⟨hc _ (by omega), rfl⟩⟩
  · obtain ⟨hb, x, tail, rfl, hx, y, tail, rfl, hy, rfl⟩ := h
    rw [front, if_neg (hascii.not.2 (by omega)), lead_eq, if_neg (by omega), if_pos (by omega)]
    have hlow : (if b.toNat = 0xE0 then 0xA0 else 0x80 : UInt8).toNat ≤ x.toNat := by
      split <;> simp only [UInt8.reduceToNat] <;> omega
    have hhigh : x.toNat ≤ (if b.toNat = 0xED then 0x9F else 0xBF : UInt8).toNat := by
      split <;> simp only [UInt8.reduceToNat] <;> omega
    exact tails_succ.2 ⟨x, y :: rest, rfl, hlow, hhigh,
      tails_succ.2 ⟨y, rest, rfl, by omega, by omega,
      tails_zero.2 ⟨hc _ (by omega), rfl⟩⟩⟩
  · obtain ⟨hb, x, tail, rfl, hx, y, tail, rfl, hy, z, tail, rfl, hz, rfl⟩ := h
    rw [front, if_neg (hascii.not.2 (by omega)), lead_eq, if_neg (by omega), if_neg (by omega),
      if_pos (by omega)]
    have hlow : (if b.toNat = 0xF0 then 0x90 else 0x80 : UInt8).toNat ≤ x.toNat := by
      split <;> simp only [UInt8.reduceToNat] <;> omega
    have hhigh : x.toNat ≤ (if b.toNat = 0xF4 then 0x8F else 0xBF : UInt8).toNat := by
      split <;> simp only [UInt8.reduceToNat] <;> omega
    exact tails_succ.2 ⟨x, y :: z :: rest, rfl, hlow, hhigh,
      tails_succ.2 ⟨y, z :: rest, rfl, by omega, by omega,
      tails_succ.2 ⟨z, rest, rfl, by omega, by omega,
      tails_zero.2 ⟨hc _ (by omega), rfl⟩⟩⟩⟩

/-- **A character is read exactly where it is spelled.** -/
theorem front_eq_char : front b bytes = (.char c, rest) ↔
    b :: bytes = String.utf8EncodeChar c ++ rest := by
  refine ⟨eq_append_of_front, fun h ↦ ?_⟩
  rcases hspelled : String.utf8EncodeChar c with - | ⟨first, tail⟩
  · exact absurd hspelled String.utf8EncodeChar_ne_nil
  · rw [hspelled, List.cons_append] at h
    obtain ⟨rfl, rfl⟩ := List.cons.inj h
    exact front_append hspelled.symm

/-! ### Texts -/

theorem pieces_eq_map_char :
    pieces bytes = cs.map Piece.char ↔ bytes = cs.flatMap String.utf8EncodeChar := by
  induction cs generalizing bytes with
  | nil => rcases bytes with - | ⟨b, bytes⟩ <;> simp [pieces]
  | cons c cs ih =>
    rcases bytes with - | ⟨b, bytes⟩
    · simp [pieces, String.utf8EncodeChar_ne_nil]
    · rw [pieces, List.map_cons, List.cons.injEq, ih, List.flatMap_cons, ← front_eq_char,
        Prod.ext_iff]

theorem characters_eq_ok (index : Nat) :
    characters index cut = .ok cs ↔ cut = cs.map Piece.char := by
  induction cut generalizing index cs with
  | nil => rcases cs with - | ⟨c, cs⟩ <;> simp [characters]
  | cons piece rest ih =>
    rcases piece with c | length | -
    · rw [characters]
      rcases hrest : characters (index + c.utf8Size) rest with fault | cs'
      · have hne (cs : List Char) : rest ≠ cs.map Piece.char := fun heq ↦ by
          rw [(ih _).2 heq] at hrest
          cases hrest
        rcases cs with - | ⟨c', cs⟩ <;> simp [Except.map, hne]
      · obtain rfl := (ih _).1 hrest
        rcases cs with - | ⟨c', cs⟩
        · simp [Except.map]
        · have hinjective : Function.Injective Piece.char := fun _ _ h ↦ Piece.char.inj h
          simp [Except.map, hinjective.list_map.eq_iff]
    · rcases cs with - | ⟨c, cs⟩ <;> simp [characters]
    · rcases cs with - | ⟨c, cs⟩ <;> simp [characters]

/-- **A byte string is read as a text if and only if it is what the text is written as.** -/
theorem decode_eq_ok : decode bytes = .ok s ↔ encode s = bytes := by
  have hcharacters : characters 0 (pieces bytes) = .ok s.toList ↔ encode s = bytes := by
    rw [characters_eq_ok, pieces_eq_map_char, encode, eq_comm]
  rw [decode, ← hcharacters]
  rcases characters 0 (pieces bytes) with fault | cs
  · simp [Except.map]
  · rw [Except.map, Except.ok.injEq, Except.ok.injEq, ← String.toList_inj, String.toList_ofList]

theorem decode?_eq_some : decode? bytes = some s ↔ encode s = bytes := by
  rw [decode?, ← decode_eq_ok]
  rcases decode bytes with fault | s' <;> simp [Except.toOption]

theorem mem_encode {unit : UInt8} :
    unit ∈ encode s ↔ ∃ c ∈ s.toList, unit ∈ String.utf8EncodeChar c :=
  List.mem_flatMap

end ModuleBundler.Utf8
