import PostfixRules.Json.Writer
import PostfixRules.Proofs.Text.ByteOrder
import PostfixRules.Text.Percent

/-!
# Every text can be percent-encoded

A text is encoded by writing each byte of its UTF-8 form as a percent sign with two hexadecimal
digits. Decoding gives the text back, so that every text can be sent, also one that consists of
characters with a meaning of their own.
-/

namespace PostfixRules.Text

/-- The characters that encode a byte. -/
def percentEncodeByte (b : UInt8) : List Char :=
  ['%', Json.hexDigit (b.toNat / 16), Json.hexDigit (b.toNat % 16)]

/-- The text with all its bytes encoded. -/
def percentEncode (text : String) : String :=
  String.ofList ((utf8 text).flatMap percentEncodeByte)

/-- A hexadecimal digit takes one byte, which has the value of the digit. -/
theorem exists_hexByte? : ∀ n, n < 16 → ∃ digit,
    String.utf8EncodeChar (Json.hexDigit n) = [digit] ∧ hexByte? digit = some (UInt8.ofNat n) := by
  have hdigits : ∀ n, n < 16 →
      String.utf8EncodeChar (Json.hexDigit n) = [(Json.hexDigit n).val.toUInt8] ∧
      hexByte? (Json.hexDigit n).val.toUInt8 = some (UInt8.ofNat n) := by decide +kernel
  exact fun n hn => ⟨_, hdigits n hn⟩

/-- The three bytes that encode a byte stand for it. -/
theorem percentBytes_encodeByte (b : UInt8) (rest : List UInt8) :
    percentBytes ((percentEncodeByte b).flatMap String.utf8EncodeChar ++ rest) =
      b :: percentBytes rest := by
  have hlt := b.toNat_lt
  obtain ⟨high, hhigh, hhigh'⟩ := exists_hexByte? (b.toNat / 16) (by omega)
  obtain ⟨low, hlow, hlow'⟩ := exists_hexByte? (b.toNat % 16) (by omega)
  have hencoded : (percentEncodeByte b).flatMap String.utf8EncodeChar = [37, high, low] := by
    rw [percentEncodeByte, List.flatMap_cons, List.flatMap_cons, List.flatMap_singleton, hhigh,
      hlow]
    rfl
  have hb : 16 * UInt8.ofNat (b.toNat / 16) + UInt8.ofNat (b.toNat % 16) = b := by
    apply UInt8.toNat_inj.mp
    simp only [UInt8.toNat_add, UInt8.toNat_mul, UInt8.toNat_ofNat', UInt8.toNat_ofNat]
    omega
  rw [hencoded]
  simp only [List.cons_append, List.nil_append, percentBytes, hhigh', hlow', hb]

/-- The bytes of an encoded text stand for the bytes of the text. -/
theorem percentBytes_encodeBytes (bytes : List UInt8) :
    percentBytes ((bytes.flatMap percentEncodeByte).flatMap String.utf8EncodeChar) = bytes := by
  induction bytes with
  | nil => simp only [List.flatMap_nil, percentBytes]
  | cons b rest ih => rw [List.flatMap_cons, List.flatMap_append, percentBytes_encodeByte, ih]

/-- Decoding gives back the text that was encoded. -/
theorem percentDecode?_percentEncode (text : String) :
    percentDecode? (percentEncode text) = some text := by
  have hbytes : ByteArray.mk (utf8 text).toArray = text.toByteArray := by
    rw [← String.utf8Encode_toList, ← List.data_toByteArray]
    rfl
  rw [percentDecode?, percentEncode, utf8, String.toList_ofList, percentBytes_encodeBytes, hbytes,
    String.fromUTF8?, dif_pos text.isValidUTF8]
  rfl

/-- An encoded text consists of percent signs and digits. -/
theorem not_mem_percentEncode {c : Char} (hsign : c ≠ '%')
    (hdigit : ∀ n, n < 16 → c ≠ Json.hexDigit n) (text : String) :
    c ∉ (percentEncode text).toList := by
  rw [percentEncode, String.toList_ofList]
  intro h
  obtain ⟨b, -, hb⟩ := List.mem_flatMap.mp h
  have hlt := b.toNat_lt
  simp only [percentEncodeByte, List.mem_cons, List.not_mem_nil, or_false] at hb
  rcases hb with hb | hb | hb
  · exact hsign hb
  · exact hdigit _ (by omega) hb
  · exact hdigit _ (by omega) hb

/-- An encoded text that is not empty begins with a percent sign. -/
theorem head?_percentEncode {text : String} (h : text ≠ "") :
    (percentEncode text).toList.head? = some '%' := by
  have hbytes : utf8 text ≠ [] := fun hnil => h (utf8_injective hnil)
  obtain ⟨b, rest, hcons⟩ := List.exists_cons_of_ne_nil hbytes
  rw [percentEncode, String.toList_ofList, hcons]
  rfl

end PostfixRules.Text
