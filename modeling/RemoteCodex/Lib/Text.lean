import Mathlib.Data.List.Basic

/-! The bytes of texts. -/

namespace Text
set_option autoImplicit true

/-- The UTF-8 bytes of a text. -/
def utf8 (s : String) : List UInt8 := s.toByteArray.data.toList

def fromUtf8 (bytes : List UInt8) : Option String := String.fromUTF8? ⟨bytes.toArray⟩

theorem fromUtf8_utf8 (s : String) : fromUtf8 (utf8 s) = some s := by
  have hv : ByteArray.IsValidUTF8 ⟨(utf8 s).toArray⟩ := s.isValidUTF8
  rw [fromUtf8, String.fromUTF8?, dif_pos hv]
  rfl

/-- An ASCII text has a byte for each character. -/
theorem utf8_ascii {l : List Char} (h : ∀ c ∈ l, c.toNat < 128) :
    utf8 (String.ofList l) = l.map fun c => UInt8.ofNat c.toNat := by
  have hbytes : l.flatMap String.utf8EncodeChar = l.map fun c => UInt8.ofNat c.toNat := by
    induction l with
    | nil => rfl
    | cons c l ih =>
      have hc : c.val ≤ 127 := UInt32.le_iff_toNat_le.2 (Nat.le_of_lt_succ (h c List.mem_cons_self))
      rw [List.flatMap_cons, String.utf8EncodeChar_eq_singleton (Char.utf8Size_eq_one_iff.2 hc),
        ih fun d hd => h d (List.mem_cons_of_mem _ hd)]
      rfl
  rw [utf8, String.toByteArray_ofList, List.utf8Encode, hbytes]
  simp

theorem byte_toNat (b : UInt8) : (Char.ofNat b.toNat).toNat = b.toNat := by
  have hb := b.toNat_lt
  have hv : b.toNat.isValidChar := .inl (by omega)
  rw [Char.ofNat, dif_pos hv]
  rfl

/-- The characters with the numbers of the bytes. -/
def latin1 (bytes : List UInt8) : List Char := bytes.map fun b => Char.ofNat b.toNat

theorem mem_latin1 (h : c ∈ latin1 bytes) : ∃ b ∈ bytes, c.toNat = b.toNat := by
  obtain ⟨b, hb, rfl⟩ := List.mem_map.1 h
  exact ⟨b, hb, byte_toNat b⟩

/-- Characters below 256 are their bytes. -/
theorem latin1_ofNat {l : List Char} (h : ∀ c ∈ l, c.toNat < 256) :
    latin1 (l.map fun c => UInt8.ofNat c.toNat) = l := by
  rw [latin1, List.map_map]
  refine (List.map_congr_left ?_).trans (List.map_id l)
  intro c hc
  rw [Function.comp_apply, UInt8.toNat_ofNat_of_lt' (h c hc), Char.ofNat_toNat, id]

/-- Bytes of ASCII are a text with these characters. -/
theorem fromUtf8_ascii {bytes : List UInt8} (h : ∀ b ∈ bytes, b.toNat < 128) :
    fromUtf8 bytes = some (String.ofList (latin1 bytes)) := by
  have hbytes : utf8 (String.ofList (latin1 bytes)) = bytes := by
    rw [utf8_ascii, latin1, List.map_map]
    · apply List.map_id''
      intro b
      rw [Function.comp_apply, byte_toNat, UInt8.ofNat_toNat]
    · intro c hc
      obtain ⟨b, hb, he⟩ := mem_latin1 hc
      rw [he]
      exact h b hb
  have hround := fromUtf8_utf8 (String.ofList (latin1 bytes))
  rwa [hbytes] at hround

end Text
