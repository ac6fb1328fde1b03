import KaChatIndexer.ScheduledPosts

/-!
# The texts of cursors

A cursor is written as decimal numbers and hex strings between separators, and reads back as what was
written.
-/
namespace KaChatIndexer.CursorTexts
open ByteStrings KaText ScheduledPosts

theorem asciiBytes_decimalText (v : Int64) : asciiBytes (decimalText v.toInt) = some (i64ToString v) := by
  have hdigits (n : ℕ) : (Nat.toDigits 10 n).all (·.toNat < 0x80) = true := by
    rw [List.all_eq_true]
    intro c hc
    have := toDigits_bounds hc
    simp
    omega
  have hiff : v < 0 ↔ v.toInt < 0 := Int64.lt_iff_toInt_lt
  unfold decimalText i64ToString asciiBytes
  by_cases hneg : v.toInt < 0
  · rw [if_pos hneg, if_pos (hiff.mpr hneg), if_pos (by rw [List.all_cons, hdigits]; rfl)]
    rfl
  · rw [if_neg hneg, if_neg fun h => hneg (hiff.mp h), if_pos (hdigits _)]
    rfl

theorem parseI64_decimalText (v : Int64) : KaText.parseI64 (decimalText v.toInt) = some v := by
  rw [KaText.parseI64, asciiBytes_decimalText, Option.bind_some, parseI64_toString]

theorem parseI32_decimalText (v : Int32) : parseI32 (decimalText v.toInt) = some v.toInt := by
  have hlow := v.le_toInt
  have hhigh := v.toInt_lt
  have hwide : v.toInt64.toInt = v.toInt := Int32.toInt_toInt64 v
  rw [← hwide, parseI32, parseI64_decimalText, Option.bind_some, if_pos (by omega)]

theorem decimalText_char {v : ℤ} {c : Char} (h : c ∈ decimalText v) : c = '-' ∨ c.isDigit = true := by
  have hdigits {n : ℕ} (h : c ∈ Nat.toDigits 10 n) : c.isDigit = true :=
    Nat.isDigit_of_mem_toDigits (by decide) (by decide) h
  unfold decimalText at h
  split at h
  · rcases List.mem_cons.mp h with rfl | h
    · exact .inl rfl
    · exact .inr (hdigits h)
  · exact .inr (hdigits h)

theorem colon_decimalText (v : ℤ) : ':' ∉ decimalText v := fun h => by
  rcases decimalText_char h with h | h
  · exact absurd h (by decide)
  · exact absurd h (by decide)

theorem hexDecode_hexEncode (b : Bytes) : hexDecode (hexEncode b) = some b := by
  have h := hexDecode_hexEncode_append b []
  simpa [hexDecode] using h

theorem hexEncode_inj {a b : Bytes} : hexEncode a = hexEncode b ↔ a = b := by
  refine ⟨fun h => Option.some.inj ?_, congrArg hexEncode⟩
  rw [← hexDecode_hexEncode, ← hexDecode_hexEncode, h]

theorem colon_hexEncode (b : Bytes) : ':' ∉ hexEncode b := colon_hex (hexDecode_hexEncode b)

end KaChatIndexer.CursorTexts
