import Presence.Text.Utf8

/-!
# Bytes of texts

The bytes of a text decode to the text (`decodeReplacing_encode`).  A byte below 128 is the
code of an ASCII character of the text, so an ASCII character that is not in the text is not
among its bytes either (`ofNat_toNat_mem_of_mem_encode`).  Conversely, replacing the parts of some
bytes that are ill-formed makes up no ASCII character (`mem_of_mem_decodeReplacing`).
-/

namespace Presence.Utf8

theorem encode_append (s t : String) : encode (s ++ t) = encode s ++ encode t := by
  rw [encode, String.toUTF8_eq_toByteArray, String.toByteArray_append,
    ByteArray.toList_data_append]
  rfl

/-- The bytes of a text are those of its characters in order. -/
theorem encode_eq_flatMap (text : String) :
    encode text = text.toList.flatMap String.utf8EncodeChar := by
  conv => lhs; rw [← String.ofList_toList (s := text)]
  rw [encode, String.toUTF8_eq_toByteArray, String.toByteArray_ofList, List.utf8Encode,
    List.data_toByteArray]

theorem decode?_encode (text : String) : decode? (encode text) = some text := by
  have hbytes : (⟨(encode text).toArray⟩ : ByteArray) = text.toByteArray := by
    rw [encode, Array.toArray_toList, String.toUTF8_eq_toByteArray]
  rw [decode?, hbytes, String.fromUTF8?, dif_pos text.isValidUTF8]
  rfl

theorem decodeReplacing_encode (text : String) : decodeReplacing (encode text) = text := by
  rw [decodeReplacing, decode?_encode]

/-- All bytes of a character that is not an ASCII character are above those of ASCII. -/
theorem le_of_mem_utf8EncodeChar {c : Char} {b : UInt8} (hc : 128 ≤ c.toNat)
    (hb : b ∈ String.utf8EncodeChar c) : 128 ≤ b.toNat := by
  have hval : c.val.toNat = c.toNat := rfl
  unfold String.utf8EncodeChar at hb
  simp only at hb
  split at hb
  next hascii => omega
  next =>
    split at hb
    next =>
      simp only [List.mem_cons, List.not_mem_nil, or_false] at hb
      rcases hb with rfl | rfl <;> rw [UInt8.toNat_ofNat'] <;> omega
    next =>
      split at hb <;> simp only [List.mem_cons, List.not_mem_nil, or_false] at hb
      next => rcases hb with rfl | rfl | rfl <;> rw [UInt8.toNat_ofNat'] <;> omega
      next => rcases hb with rfl | rfl | rfl | rfl <;> rw [UInt8.toNat_ofNat'] <;> omega

/-- An ASCII character is the byte of its code. -/
theorem utf8EncodeChar_of_lt {c : Char} (hc : c.toNat < 128) :
    String.utf8EncodeChar c = [UInt8.ofNat c.toNat] :=
  if_pos (Nat.le_of_lt_succ hc)

/-- A byte below 128 is the code of a character of the text. -/
theorem ofNat_toNat_mem_of_mem_encode {text : String} {b : UInt8} (hb : b ∈ encode text)
    (h : b.toNat < 128) : Char.ofNat b.toNat ∈ text.toList := by
  rw [encode_eq_flatMap, List.mem_flatMap] at hb
  obtain ⟨c, hc, hb⟩ := hb
  have hascii : c.toNat < 128 :=
    Nat.lt_of_not_le fun hlarge => Nat.not_lt.2 (le_of_mem_utf8EncodeChar hlarge hb) h
  rw [utf8EncodeChar_of_lt hascii, List.mem_singleton] at hb
  have hbyte : b.toNat = c.toNat := by
    rw [hb, UInt8.toNat_ofNat']
    omega
  rw [hbyte, Char.ofNat_toNat]
  exact hc

/-! ## Replacing ill-formed parts -/

/-- Whatever bytes follow, the character is no ASCII character. -/
def Pending.IsLong (p : Pending) : Prop := 2 ≤ p.code ∨ 0 < p.more ∧ 0x82 ≤ p.code * 64 + p.low

/-- An ASCII character that the byte completes is the byte itself. -/
def Reading.Keeps (b : Nat) : Reading → Prop
  | .complete c => c.toNat = b ∨ c.toNat = 0 ∨ 128 ≤ c.toNat
  | .partially p => p.IsLong
  | .illFormed => True

theorem toNat_ofNat (n : Nat) : (Char.ofNat n).toNat = n ∨ (Char.ofNat n).toNat = 0 := by
  by_cases h : n.isValidChar
  · left
    rw [Char.ofNat, dif_pos h]
    rfl
  · right
    rw [Char.ofNat, dif_neg h]
    rfl

theorem keeps_lead (b : Nat) : (lead b).Keeps b := by
  unfold lead
  split
  · exact (toNat_ofNat b).imp_right Or.inl
  · repeat' split
    any_goals trivial
    all_goals
      simp only [Reading.Keeps, Pending.IsLong]
      omega

theorem keeps_next {p : Pending} (hp : p.IsLong) (b : Nat) : (p.next b).Keeps b := by
  unfold Pending.next
  split
  next hb =>
    obtain ⟨code, more, low, high⟩ := p
    simp only [Pending.IsLong] at hp
    simp only at hb
    cases more with
    | zero =>
        rcases toNat_ofNat (code * 64 + (b - 0x80)) with h | h
        · refine Or.inr (Or.inr ?_)
          rw [h]
          omega
        · exact Or.inr (Or.inl h)
    | succ more =>
        left
        show 2 ≤ code * 64 + (b - 0x80)
        omega
  next => trivial

theorem keeps_follow {pending : Option Pending} (hp : ∀ p ∈ pending, p.IsLong) (b : Nat) :
    (follow pending b).2.Keeps b := by
  cases pending with
  | none => exact keeps_lead b
  | some p =>
      have hnext := keeps_next (hp p rfl) b
      unfold follow
      simp only
      split
      next => exact keeps_lead b
      next => exact hnext

theorem not_mem_none_isLong : ∀ p ∈ (none : Option Pending), p.IsLong := by
  intro p hp
  cases hp

/-- Replacing ill-formed parts brings in no ASCII character but perhaps U+0000. -/
theorem mem_of_mem_replaceFrom {pending : Option Pending} (hp : ∀ p ∈ pending, p.IsLong)
    {bytes : List UInt8} {c : Char} (hc : c ∈ replaceFrom pending bytes) (hpos : 0 < c.toNat)
    (hascii : c.toNat < 128) : UInt8.ofNat c.toNat ∈ bytes := by
  have hreplacement : c ≠ replacement := by
    rintro rfl
    exact absurd hascii (by decide)
  induction bytes generalizing pending with
  | nil =>
      unfold replaceFrom at hc
      split at hc
      · exact absurd (List.mem_singleton.1 hc) hreplacement
      · cases hc
  | cons b bytes ih =>
      have hkeeps := keeps_follow hp b.toNat
      rw [replaceFrom] at hc
      rcases hfollow : follow pending b.toNat with ⟨broken, reading⟩
      rw [hfollow] at hc hkeeps
      rcases List.mem_append.1 hc with hc | hc
      · split at hc
        · exact absurd (List.mem_singleton.1 hc) hreplacement
        · cases hc
      · cases reading with
        | complete c' =>
            rcases List.mem_cons.1 hc with rfl | hc
            · rcases hkeeps with h | h | h
              · rw [h, UInt8.ofNat_toNat]
                exact List.mem_cons_self
              · omega
              · omega
            · exact List.mem_cons_of_mem _ (ih not_mem_none_isLong hc)
        | partially p =>
            refine List.mem_cons_of_mem _ (ih ?_ hc)
            rintro _ ⟨⟩
            exact hkeeps
        | illFormed =>
            rcases List.mem_cons.1 hc with rfl | hc
            · exact absurd rfl hreplacement
            · exact List.mem_cons_of_mem _ (ih not_mem_none_isLong hc)

theorem encode_of_decode? {bytes : List UInt8} {text : String} (h : decode? bytes = some text) :
    encode text = bytes := by
  rw [decode?, String.fromUTF8?] at h
  split at h
  next hvalid =>
    cases h
    rfl
  next => cases h

/-- Decoded texts have no ASCII character that is not among the bytes, U+0000 apart. -/
theorem mem_of_mem_decodeReplacing {bytes : List UInt8} {c : Char}
    (hc : c ∈ (decodeReplacing bytes).toList) (hpos : 0 < c.toNat) (hascii : c.toNat < 128) :
    UInt8.ofNat c.toNat ∈ bytes := by
  unfold decodeReplacing at hc
  split at hc
  next text htext =>
    rw [← encode_of_decode? htext, encode_eq_flatMap]
    refine List.mem_flatMap.2 ⟨c, hc, ?_⟩
    rw [utf8EncodeChar_of_lt hascii]
    exact List.mem_singleton_self _
  next =>
    rw [String.toList_ofList] at hc
    exact mem_of_mem_replaceFrom not_mem_none_isLong hc hpos hascii

end Presence.Utf8
