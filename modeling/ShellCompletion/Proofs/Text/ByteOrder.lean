/-!
# Texts in the order of their bytes

Texts are compared character by character. Encoded in UTF-8 they can be compared byte by byte just
as well: `bytes_lt_bytes`. The encodings of two characters differ at some byte, and the first one at
which they do decides as the characters do (`Below`), so whatever follows does not matter.
-/

namespace ShellCompletion.Text

/-- The UTF-8 encoding of a text. -/
def bytes (s : String) : List UInt8 :=
  s.toUTF8.data.toList

/-- A text is encoded character by character. -/
theorem bytes_eq_flatMap (s : String) : bytes s = s.toList.flatMap String.utf8EncodeChar := by
  rw [bytes, String.toUTF8_eq_toByteArray, ← String.utf8Encode_toList, List.utf8Encode,
    List.data_toByteArray]

/-- The two lists differ somewhere, and at the first such place the first list has the smaller
byte. -/
def Below : List UInt8 → List UInt8 → Prop
  | x :: u, y :: v => x < y ∨ x = y ∧ Below u v
  | _, _ => False

/-- Whatever follows the first difference does not matter. -/
theorem Below.append_lt_append {u v : List UInt8} (h : Below u v) (s t : List UInt8) :
    u ++ s < v ++ t := by
  fun_induction Below u v with
  | case1 x u y v ih =>
    rcases h with hxy | ⟨rfl, huv⟩
    · exact List.Lex.rel hxy
    · exact List.Lex.cons (ih huv)
  | case2 => exact h.elim

/-- Bytes are compared by what is left of their numbers. -/
theorem ofNat_lt_ofNat_iff (x y : Nat) : UInt8.ofNat x < UInt8.ofNat y ↔ x % 256 < y % 256 := by
  rw [UInt8.lt_iff_toNat_lt, UInt8.toNat_ofNat', UInt8.toNat_ofNat']

/-- Bytes are the same if the same is left of their numbers. -/
theorem ofNat_eq_ofNat_iff (x y : Nat) : UInt8.ofNat x = UInt8.ofNat y ↔ x % 256 = y % 256 := by
  rw [← UInt8.toNat_inj, UInt8.toNat_ofNat', UInt8.toNat_ofNat']

/-- Of two numbers in digits to the base 64, the smaller one is smaller in the upper digits or in
the last. -/
theorem div_lt_or_mod_lt {m n : Nat} (h : m < n) :
    m / 64 < n / 64 ∨ m / 64 = n / 64 ∧ m % 64 < n % 64 := by
  omega

/-- Of two numbers the smaller one has the smaller digit, to the base 64, at the first place at
which they differ. -/
theorem digits_lt {m n : Nat} (h : m < n) :
    m / 262144 < n / 262144 ∨ m / 262144 = n / 262144 ∧
      (m / 4096 % 64 < n / 4096 % 64 ∨ m / 4096 % 64 = n / 4096 % 64 ∧
        (m / 64 % 64 < n / 64 % 64 ∨ m / 64 % 64 = n / 64 % 64 ∧ m % 64 < n % 64)) := by
  rcases div_lt_or_mod_lt h with h1 | ⟨h1, h1'⟩
  · rcases div_lt_or_mod_lt h1 with h2 | ⟨h2, h2'⟩
    · rcases div_lt_or_mod_lt h2 with h3 | ⟨h3, h3'⟩ <;> omega
    · omega
  · omega

/-- The number of bytes grows with the character, and the first byte with their number; among
characters with equally many bytes the digits to the base 64 decide. -/
theorem below_utf8EncodeChar {a b : Char} (h : a < b) :
    Below (String.utf8EncodeChar a) (String.utf8EncodeChar b) := by
  have hab : a.val.toNat < b.val.toNat := h
  have hb : b.val.toNat < 0x110000 := by
    rcases b.valid with hv | ⟨-, hv⟩
    · exact Nat.lt_trans hv (by decide)
    · exact hv
  unfold String.utf8EncodeChar
  generalize a.val.toNat = m at hab
  generalize b.val.toNat = n at hab hb
  have hdigits := digits_lt hab
  simp only []
  -- one goal for each pair of lengths; the first byte tells different lengths apart
  repeat' split
  all_goals
    simp (disch := omega) only [Below, ofNat_lt_ofNat_iff, ofNat_eq_ofNat_iff, Nat.mod_eq_of_lt,
      Nat.add_lt_add_iff_right, Nat.add_right_cancel_iff]
    omega

/-- The bytes of texts are in the order of the texts. -/
theorem bytes_lt_bytes {a b : String} (h : a < b) : bytes a < bytes b := by
  have hlist : a.toList < b.toList := h
  rw [bytes_eq_flatMap, bytes_eq_flatMap]
  generalize a.toList = as at hlist
  generalize b.toList = bs at hlist
  induction hlist with
  | @nil c cs =>
    rw [List.flatMap_nil, List.flatMap_cons]
    obtain ⟨x, u, hxu⟩ := List.exists_cons_of_ne_nil (String.utf8EncodeChar_ne_nil (c := c))
    rw [hxu, List.cons_append]
    exact List.nil_lt_cons _ _
  | rel hlt =>
    rw [List.flatMap_cons, List.flatMap_cons]
    exact (below_utf8EncodeChar hlt).append_lt_append _ _
  | cons _ ih =>
    rw [List.flatMap_cons, List.flatMap_cons]
    exact List.append_left_lt ih

end ShellCompletion.Text
