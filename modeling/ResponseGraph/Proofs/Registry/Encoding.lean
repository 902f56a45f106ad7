import ResponseGraph.Request

/-!
Keys as bytes.

A registry may file plans and operations under a digest of a key, which is taken of bytes.  Each
text of the key follows its length in eight bytes, so that neighbours cannot run into each other:
keys of texts with a length of eight bytes are the same if they have the same bytes.
-/

namespace ResponseGraph

/-- The last bytes of a number, the lowest one first. -/
def littleEndian : (count : Nat) → (n : Nat) → List UInt8
  | 0, _ => []
  | count + 1, n => UInt8.ofNat n :: littleEndian count (n / 256)

theorem length_littleEndian (count n : Nat) : (littleEndian count n).length = count := by
  induction count generalizing n with
  | zero => rfl
  | succ count ih => rw [littleEndian, List.length_cons, ih]

/-- Numbers that have no further bytes are told by these. -/
theorem littleEndian_inj {count m n : Nat} (hm : m < Nat.pow 256 count)
    (hn : n < Nat.pow 256 count) (h : littleEndian count m = littleEndian count n) : m = n := by
  induction count generalizing m n with
  | zero =>
    have hm : m < 1 := hm
    have hn : n < 1 := hn
    omega
  | succ count ih =>
    have hm : m < Nat.pow 256 count * 256 := hm
    have hn : n < Nat.pow 256 count * 256 := hn
    obtain ⟨low, high⟩ := List.cons.inj h
    have low : m % 256 = n % 256 := congrArg UInt8.toNat low
    have high : m / 256 = n / 256 := by
      refine ih ?_ ?_ high
      · exact (Nat.div_lt_iff_lt_mul (by omega)).mpr hm
      · exact (Nat.div_lt_iff_lt_mul (by omega)).mpr hn
    omega

namespace DocumentKey

/-- A text behind its length. -/
def prefixed (text : String) : List UInt8 :=
  littleEndian 8 text.utf8ByteSize ++ text.toUTF8.data.toList

/-- The bytes of which the digest of a key is taken. -/
def bytes (key : DocumentKey) : List UInt8 :=
  prefixed key.text ++ (if key.fragmentsOnly then 1 else 0) ::
    match key.fragmentName with
    | some name => 1 :: prefixed name
    | none => [0]

/-- The length of a text has eight bytes, as that of every text in memory. -/
def Short (text : String) : Prop := text.utf8ByteSize < Nat.pow 256 8

/-- The lengths of the texts have eight bytes. -/
structure Bounded (key : DocumentKey) : Prop where
  text : Short key.text
  name : ∀ name, key.fragmentName = some name → Short name

/-- What follows a text is told from it. -/
theorem prefixed_append_inj {a b : String} {rest rest' : List UInt8} (ha : Short a) (hb : Short b)
    (h : prefixed a ++ rest = prefixed b ++ rest') : a = b ∧ rest = rest' := by
  unfold prefixed at h
  rw [List.append_assoc, List.append_assoc] at h
  obtain ⟨lengths, h⟩ := List.append_inj h
    (by rw [length_littleEndian, length_littleEndian])
  have same := littleEndian_inj ha hb lengths
  obtain ⟨texts, rests⟩ := List.append_inj h same
  exact ⟨String.toByteArray_inj.mp (ByteArray.ext (Array.toList_inj.mp texts)), rests⟩

/-- Keys with the same bytes are the same. -/
theorem bytes_inj {a b : DocumentKey} (ha : a.Bounded) (hb : b.Bounded) (h : a.bytes = b.bytes) :
    a = b := by
  obtain ⟨text, flag, name⟩ := a
  obtain ⟨text', flag', name'⟩ := b
  obtain ⟨same, rest⟩ := prefixed_append_inj ha.text hb.text h
  obtain rfl : text = text' := same
  obtain ⟨flags, names⟩ := List.cons.inj rest
  obtain rfl : flag = flag' := by
    revert flags
    cases flag <;> cases flag' <;> simp
  cases name with
  | none =>
    cases name' with
    | none => rfl
    | some => exact absurd (List.cons.inj names).1 (by decide)
  | some name =>
    cases name' with
    | none => exact absurd (List.cons.inj names).1 (by decide)
    | some name' =>
      have texts : prefixed name ++ [] = prefixed name' ++ [] := by
        rw [List.append_nil, List.append_nil]
        exact (List.cons.inj names).2
      rw [(prefixed_append_inj (ha.name name rfl) (hb.name name' rfl) texts).1]

end DocumentKey
end ResponseGraph
