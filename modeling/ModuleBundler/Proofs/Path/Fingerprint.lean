import Mathlib.Logic.Function.Basic
import ModuleBundler.Path.Operations

/-!
# What a fingerprint tells apart

A fingerprint is mixed with one byte after the other. No step forgets anything: the multiplier is
odd and has an inverse among the words of 64 bits (`Path.fingerprintPrime_mul_inverse`), and a byte
that is mixed in can be taken out again. So fingerprints that were different stay different,
whatever bytes are mixed into both of them (`Path.foldl_mix_injective`).

`Path.fingerprint_tellsApart` has three consequences. Absolute and relative paths start apart and
therefore never meet along the same segments; what two paths are followed by does not matter to
whether they meet; and one byte that is not the same is enough to keep them apart.

Nothing is asked of the segments, which may hold any text.
-/

namespace ModuleBundler

/-- Lists of one length that differ in one place are the same in front of it and behind it. -/
theorem exists_append_of_existsUnique_ne {α : Type} {l l' : List α} (hlength : l.length = l'.length)
    (hone : ∃! i : Nat, l[i]? ≠ l'[i]?) :
    ∃ front a a' back, a ≠ a' ∧ l = front ++ a :: back ∧ l' = front ++ a' :: back := by
  obtain ⟨i, hi, honly⟩ := hone
  have hsame (j : Nat) (hj : j ≠ i) : l[j]? = l'[j]? := by
    by_contra hne
    exact hj (honly j hne)
  have hin : i < l.length := by
    by_contra hout
    have hout' : l'.length ≤ i := hlength ▸ Nat.le_of_not_lt hout
    exact hi (by rw [List.getElem?_eq_none (Nat.le_of_not_lt hout), List.getElem?_eq_none hout'])
  have hin' : i < l'.length := hlength ▸ hin
  have hfront : l.take i = l'.take i := by
    refine List.ext_getElem? fun j ↦ ?_
    rw [List.getElem?_take, List.getElem?_take]
    split
    · exact hsame j (by omega)
    · rfl
  have hback : l.drop (i + 1) = l'.drop (i + 1) := by
    refine List.ext_getElem? fun j ↦ ?_
    rw [List.getElem?_drop, List.getElem?_drop]
    exact hsame _ (by omega)
  refine ⟨l.take i, l[i], l'[i], l.drop (i + 1), ?_, ?_, ?_⟩
  · rwa [List.getElem?_eq_getElem hin, List.getElem?_eq_getElem hin', Ne, Option.some_inj] at hi
  · rw [← List.drop_eq_getElem_cons hin, List.take_append_drop]
  · rw [hfront, hback, ← List.drop_eq_getElem_cons hin', List.take_append_drop]

namespace Path

variable {bytes bytes' : Bytes} {hash : UInt64} {p r : Path}

/-! ### One byte -/

/-- The word that undoes the multiplier. -/
def fingerprintInverse : UInt64 := 0xce965057aff6957b

theorem fingerprintPrime_mul_inverse : fingerprintPrime * fingerprintInverse = 1 := by decide

theorem mul_fingerprintPrime_injective : Function.Injective (· * fingerprintPrime) := by
  refine Function.LeftInverse.injective (g := (· * fingerprintInverse)) fun word ↦ ?_
  show word * fingerprintPrime * fingerprintInverse = word
  rw [UInt64.mul_assoc, fingerprintPrime_mul_inverse, UInt64.mul_one]

/-- **No step forgets** what was mixed before. -/
theorem mix_left_injective (byte : UInt8) : Function.Injective (mix · byte) := by
  intro hash hash' h
  have hmixed : hash ^^^ byte.toUInt64 = hash' ^^^ byte.toUInt64 :=
    mul_fingerprintPrime_injective h
  exact (UInt64.xor_left_inj _).1 hmixed

/-- Nor does it forget the byte. -/
theorem mix_right_injective (hash : UInt64) : Function.Injective (mix hash) := by
  intro byte byte' h
  have hmixed : hash ^^^ byte.toUInt64 = hash ^^^ byte'.toUInt64 :=
    mul_fingerprintPrime_injective h
  exact UInt8.toUInt64_inj.1 ((UInt64.xor_right_inj _).1 hmixed)

/-! ### All bytes -/

/-- **No bytes forget** what was mixed before them. -/
theorem foldl_mix_injective (bytes : Bytes) :
    Function.Injective fun hash ↦ bytes.foldl mix hash := by
  induction bytes with
  | nil => exact Function.injective_id
  | cons byte bytes ih => exact ih.comp (mix_left_injective byte)

/-- One byte that is not the same is not made up for by the bytes behind it. -/
theorem foldl_mix_ne (hlength : bytes.length = bytes'.length)
    (hone : ∃! i : Nat, bytes[i]? ≠ bytes'[i]?) : bytes.foldl mix hash ≠ bytes'.foldl mix hash := by
  obtain ⟨front, byte, byte', back, hne, rfl, rfl⟩ :=
    exists_append_of_existsUnique_ne hlength hone
  rw [List.foldl_append, List.foldl_append, List.foldl_cons, List.foldl_cons]
  exact (foldl_mix_injective back).ne ((mix_right_injective _).ne hne)

/-- What follows a path is mixed into its fingerprint. -/
theorem fingerprint_join (hr : r.absolute = false) :
    (p.join r).fingerprint = (fingerprintBytes r.segments).foldl mix p.fingerprint := by
  rw [join, hr, if_neg Bool.false_ne_true, fingerprint, fingerprintBytes, List.flatMap_append,
    List.foldl_append]
  rfl

/-- **What a fingerprint tells apart.** An absolute and a relative path along the same segments
never have the same fingerprint. Two paths have the same one exactly if they have the same one when
both are followed by a relative path. And paths that start alike, whose bytes are as many and differ
in a single place, never have the same one, wherever this place is, inside of a segment or at its
end. -/
theorem fingerprint_tellsApart :
    (∀ segments, fingerprint ⟨true, segments⟩ ≠ fingerprint ⟨false, segments⟩) ∧
    (∀ p q r : Path, r.absolute = false →
      ((p.join r).fingerprint = (q.join r).fingerprint ↔ p.fingerprint = q.fingerprint)) ∧
    ∀ p q : Path, p.absolute = q.absolute →
      (fingerprintBytes p.segments).length = (fingerprintBytes q.segments).length →
      (∃! i : Nat, (fingerprintBytes p.segments)[i]? ≠ (fingerprintBytes q.segments)[i]?) →
      p.fingerprint ≠ q.fingerprint := by
  refine ⟨fun segments ↦ ?_, fun p q r hr ↦ ?_, fun p q hmode hlength hone ↦ ?_⟩
  · have hseed : fingerprintSeed true ≠ fingerprintSeed false := by decide
    exact (foldl_mix_injective _).ne hseed
  · rw [fingerprint_join hr, fingerprint_join hr]
    exact (foldl_mix_injective _).eq_iff
  · rw [fingerprint, fingerprint, hmode]
    exact foldl_mix_ne hlength hone

/-- The end of a segment where the other path has a letter keeps two paths apart, and what follows
both leaves them apart. -/
theorem fingerprint_tellsApart_boundary :
    fingerprint ⟨true, ["ab", "c"]⟩ ≠ fingerprint ⟨true, ["abxc"]⟩ ∧
    (join ⟨true, ["ab", "c"]⟩ ⟨false, ["..", "é.ts"]⟩).fingerprint ≠
      (join ⟨true, ["abxc"]⟩ ⟨false, ["..", "é.ts"]⟩).fingerprint ∧
    fingerprint ⟨true, ["ab", "c"]⟩ ≠ fingerprint ⟨false, ["ab", "c"]⟩ := by
  obtain ⟨hmodes, hjoin, hone⟩ := fingerprint_tellsApart
  have hbytes : fingerprintBytes ["ab", "c"] = [0x61, 0x62, 0xFF, 0x63, 0xFF] := by decide
  have hbytes' : fingerprintBytes ["abxc"] = [0x61, 0x62, 0x78, 0x63, 0xFF] := by decide
  have hplace : ∃! i : Nat,
      (fingerprintBytes ["ab", "c"])[i]? ≠ (fingerprintBytes ["abxc"])[i]? := by
    rw [hbytes, hbytes']
    refine ⟨2, by decide, fun i hi ↦ ?_⟩
    match i with
    | 0 | 1 | 3 | 4 => exact absurd rfl hi
    | 2 => rfl
    | _ + 5 => exact absurd rfl hi
  have hapart := hone ⟨true, ["ab", "c"]⟩ ⟨true, ["abxc"]⟩ rfl (by rw [hbytes, hbytes']; rfl) hplace
  exact ⟨hapart, (hjoin _ _ _ rfl).not.2 hapart, hmodes _⟩

end Path

end ModuleBundler
