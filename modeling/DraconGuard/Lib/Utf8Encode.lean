import DraconGuard.Lib.TextSlice
import DraconGuard.Lib.Utf8

/-!
# Text written as UTF-8

`encode` is the bytes of a text. It takes the bytes that `TextSlice.size` counts, reads as UTF-8
(**`isUtf8_encode`**) and as the text (`decode_encode`), and has a byte of the ASCII range only for
a character of that range.
-/

namespace Utf8

/-- The bytes of a text. -/
def encode (text : List Char) : List UInt8 := text.flatMap String.utf8EncodeChar

/-- The text of the bytes. -/
def decode (bytes : List UInt8) : Option (List Char) :=
  bytes.toByteArray.utf8Decode?.map Array.toList

/-- A byte as `isUtf8` reads it. -/
def byteChar (b : UInt8) : Char := Char.ofNat b.toNat

variable {c : Char} {text : List Char}

@[simp] theorem encode_nil : encode [] = [] := rfl

@[simp] theorem encode_cons : encode (c :: text) = String.utf8EncodeChar c ++ encode text :=
  List.flatMap_cons

@[simp] theorem encode_append (pre post : List Char) :
    encode (pre ++ post) = encode pre ++ encode post := List.flatMap_append

@[simp] theorem length_encode (text : List Char) : (encode text).length = TextSlice.size text := by
  induction text with
  | nil => rfl
  | cons c text ih =>
    rw [encode_cons, List.length_append, ih, String.length_utf8EncodeChar, TextSlice.size_cons]

theorem decode_encode (text : List Char) : decode (encode text) = some text := by
  have hdecode : (encode text).toByteArray.utf8Decode? = some text.toArray :=
    List.utf8Decode?_utf8Encode
  rw [decode, hdecode, Option.map_some, List.toList_toArray]

@[simp] theorem toNat_byteChar (b : UInt8) : (byteChar b).toNat = b.toNat := by
  have hvalid : b.toNat.isValidChar := Or.inl (by have := b.toNat_lt; omega)
  rw [byteChar, Char.toNat, Char.ofNat, dif_pos hvalid]
  rfl

theorem toNat_byteChar_ofNat {n : Nat} (h : n < 256) : (byteChar (UInt8.ofNat n)).toNat = n := by
  rw [toNat_byteChar, UInt8.toNat_ofNat', Nat.mod_eq_of_lt h]

/-! ## One character -/

/-- A byte that continues a character. -/
theorem takes_tail {o : Owed} {n : Nat} (hlow : o.low ≤ n % 64 + 0x80)
    (hhigh : n % 64 + 0x80 ≤ o.high) :
    o.takes (byteChar (UInt8.ofNat (n % 64 + 0x80))) = true := by
  have hbyte : n % 64 + 0x80 < 256 := by omega
  simp only [Owed.takes, toNat_byteChar_ofNat hbyte, hlow, hhigh, decide_true, Bool.and_self]

/-- The first byte of a longer character: not one of its own, and owed what `lead` says. -/
theorem reads_lead {n : Nat} {owed : Owed} {bs : List Char} (hlow : 0xC2 ≤ n) (hhigh : n ≤ 0xF4)
    (hlead : lead (byteChar (UInt8.ofNat n)) = some owed) :
    reads none (byteChar (UInt8.ofNat n) :: bs) = reads (some owed) bs := by
  have hsingle : single (byteChar (UInt8.ofNat n)) = false := by
    rw [single, toNat_byteChar_ofNat (by omega), Bool.or_eq_false_iff, decide_eq_false_iff_not,
      decide_eq_false_iff_not]
    omega
  rw [reads, hsingle, if_neg Bool.false_ne_true, hlead, Option.isSome_some, Bool.true_and]

/-- **A character's bytes read as one.** The cases are those of the encoder; a surrogate, which
`0xED` would have to begin, is no character. -/
theorem isUtf8_encodeChar (c : Char) :
    isUtf8 ((String.utf8EncodeChar c).map byteChar) = true := by
  have hvalid : c.val.toNat < 0xD800 ∨ 0xDFFF < c.val.toNat ∧ c.val.toNat < 0x110000 := c.valid
  unfold String.utf8EncodeChar
  generalize c.val.toNat = v at hvalid ⊢
  simp only []
  split
  · next hone =>
    have hsingle : single (byteChar (UInt8.ofNat v)) = true := by
      rw [single, toNat_byteChar_ofNat (by omega), decide_eq_true hone, Bool.true_or]
    exact isUtf8_of_single fun b hb => List.mem_singleton.mp hb ▸ hsingle
  split
  · next hone htwo =>
    have hlead : lead (byteChar (UInt8.ofNat (v / 64 % 32 + 0xC0))) = some { count := 1 } := by
      unfold lead
      rw [toNat_byteChar_ofNat (by omega), if_pos (by omega)]
    rw [List.map_cons, List.map_cons, List.map_nil, isUtf8,
      reads_lead (by omega) (by omega) hlead, reads, takes_tail (by simp) (by simp; omega)]
    rfl
  split
  · next hone htwo hthree =>
    -- what the second byte may be depends on the first
    obtain ⟨owed, hlead, hcount, hlow, hhigh⟩ : ∃ owed : Owed,
        lead (byteChar (UInt8.ofNat (v / 4096 % 16 + 0xE0))) = some owed ∧ owed.count = 2 ∧
          owed.low ≤ v / 64 % 64 + 0x80 ∧ v / 64 % 64 + 0x80 ≤ owed.high := by
      unfold lead
      rw [toNat_byteChar_ofNat (by omega), if_neg (by omega)]
      by_cases hE0 : v / 4096 % 16 + 0xE0 = 0xE0
      · exact ⟨_, if_pos hE0, rfl, by simp only []; omega, by simp only []; omega⟩
      rw [if_neg hE0]
      by_cases hED : v / 4096 % 16 + 0xE0 = 0xED
      · exact ⟨_, if_pos hED, rfl, by simp only []; omega, by simp only []; omega⟩
      rw [if_neg hED]
      exact ⟨_, if_pos (by omega), rfl, by simp only []; omega, by simp only []; omega⟩
    have hnext : owed.next = some { count := 1 } := by rw [Owed.next, hcount]; rfl
    rw [List.map_cons, List.map_cons, List.map_cons, List.map_nil, isUtf8,
      reads_lead (by omega) (by omega) hlead, reads, takes_tail hlow hhigh, hnext, reads,
      takes_tail (by simp) (by simp; omega)]
    rfl
  · next hone htwo hthree =>
    obtain ⟨owed, hlead, hcount, hlow, hhigh⟩ : ∃ owed : Owed,
        lead (byteChar (UInt8.ofNat (v / 262144 % 8 + 0xF0))) = some owed ∧ owed.count = 3 ∧
          owed.low ≤ v / 4096 % 64 + 0x80 ∧ v / 4096 % 64 + 0x80 ≤ owed.high := by
      unfold lead
      rw [toNat_byteChar_ofNat (by omega), if_neg (by omega), if_neg (by omega),
        if_neg (by omega), if_neg (by omega)]
      by_cases hF0 : v / 262144 % 8 + 0xF0 = 0xF0
      · exact ⟨_, if_pos hF0, rfl, by simp only []; omega, by simp only []; omega⟩
      rw [if_neg hF0]
      by_cases hF4 : v / 262144 % 8 + 0xF0 = 0xF4
      · rw [if_neg (by omega)]
        exact ⟨_, if_pos hF4, rfl, by simp only []; omega, by simp only []; omega⟩
      exact ⟨_, if_pos (by omega), rfl, by simp only []; omega, by simp only []; omega⟩
    have hnext : owed.next = some { count := 2 } := by rw [Owed.next, hcount]; rfl
    have hlast : Owed.next { count := 2 } = some { count := 1 } := rfl
    rw [List.map_cons, List.map_cons, List.map_cons, List.map_cons, List.map_nil, isUtf8,
      reads_lead (by omega) (by omega) hlead, reads, takes_tail hlow hhigh, hnext, reads,
      takes_tail (by simp) (by simp; omega), hlast, reads, takes_tail (by simp) (by simp; omega)]
    rfl

/-! ## A text -/

/-- **The bytes of a text read as UTF-8.** -/
theorem isUtf8_encode (text : List Char) : isUtf8 ((encode text).map byteChar) = true := by
  induction text with
  | nil => rfl
  | cons c text ih =>
    rw [encode_cons, List.map_append]
    exact isUtf8_append (isUtf8_encodeChar c) ih

/-- A byte of the ASCII range is a character of its own. -/
theorem mem_of_mem_encode {b : UInt8} (hb : b ∈ encode text) (hascii : b.toNat ≤ 0x7F) :
    ∃ c ∈ text, c.toNat = b.toNat := by
  obtain ⟨c, hc, hmem⟩ := List.mem_flatMap.mp hb
  refine ⟨c, hc, ?_⟩
  show c.val.toNat = b.toNat
  have hbyte {n : Nat} (h : n < 256) : (UInt8.ofNat n).toNat = n := by
    rw [UInt8.toNat_ofNat', Nat.mod_eq_of_lt h]
  unfold String.utf8EncodeChar at hmem
  generalize c.val.toNat = v at hmem ⊢
  simp only [] at hmem
  split at hmem
  · rw [List.mem_singleton.mp hmem, hbyte (by omega)]
  · split at hmem
    · simp only [List.mem_cons, List.not_mem_nil, or_false] at hmem
      rcases hmem with rfl | rfl <;> rw [hbyte (by omega)] at hascii <;> omega
    · split at hmem
      · simp only [List.mem_cons, List.not_mem_nil, or_false] at hmem
        rcases hmem with rfl | rfl | rfl <;> rw [hbyte (by omega)] at hascii <;> omega
      · simp only [List.mem_cons, List.not_mem_nil, or_false] at hmem
        rcases hmem with rfl | rfl | rfl | rfl <;> rw [hbyte (by omega)] at hascii <;> omega

end Utf8
