/-!
# UTF-8

`String::from_utf8_lossy` takes any bytes: each maximal prefix of a well-formed
sequence that is cut short becomes one replacement character.
-/

namespace Rinfra

def replacementChar : Char := '\uFFFD'

/-- How many bytes a sequence that starts with `a` has; 0 if none does. -/
def utf8Width (a : Nat) : Nat :=
  if a < 0x80 then 1
  else if a < 0xC2 then 0
  else if a < 0xE0 then 2
  else if a < 0xF0 then 3
  else if a < 0xF5 then 4
  else 0

def isContinuation (b : Nat) : Bool := 0x80 ≤ b ∧ b ≤ 0xBF

/-- A second byte after `a` must not make the sequence overlong, a surrogate or
larger than U+10FFFF. -/
def isSecond (a b : Nat) : Bool :=
  if a = 0xE0 then 0xA0 ≤ b ∧ b ≤ 0xBF
  else if a = 0xED then 0x80 ≤ b ∧ b ≤ 0x9F
  else if a = 0xF0 then 0x90 ≤ b ∧ b ≤ 0xBF
  else if a = 0xF4 then 0x80 ≤ b ∧ b ≤ 0x8F
  else isContinuation b

def lossyChars : List UInt8 → List Char
  | [] => []
  | a :: rest =>
    if utf8Width a.toNat = 0 then replacementChar :: lossyChars rest
    else if utf8Width a.toNat = 1 then Char.ofNat a.toNat :: lossyChars rest
    else match rest with
      | [] => [replacementChar]
      | b :: rest₂ =>
        if !isSecond a.toNat b.toNat then replacementChar :: lossyChars (b :: rest₂)
        else if utf8Width a.toNat = 2 then
          Char.ofNat (a.toNat % 0x20 * 0x40 + b.toNat % 0x40) :: lossyChars rest₂
        else match rest₂ with
          | [] => [replacementChar]
          | c :: rest₃ =>
            if !isContinuation c.toNat then replacementChar :: lossyChars (c :: rest₃)
            else if utf8Width a.toNat = 3 then
              Char.ofNat (a.toNat % 0x10 * 0x1000 + b.toNat % 0x40 * 0x40 + c.toNat % 0x40) ::
                lossyChars rest₃
            else match rest₃ with
              | [] => [replacementChar]
              | d :: rest₄ =>
                if !isContinuation d.toNat then replacementChar :: lossyChars (d :: rest₄)
                else
                  Char.ofNat (a.toNat % 0x08 * 0x40000 + b.toNat % 0x40 * 0x1000 +
                    c.toNat % 0x40 * 0x40 + d.toNat % 0x40) :: lossyChars rest₄

def fromUtf8Lossy (bytes : List UInt8) : String := String.ofList (lossyChars bytes)

example : fromUtf8Lossy [0x61, 0xE2, 0x82, 0xAC, 0xE2, 0x82, 0xFF, 0xF0, 0x9F, 0x98, 0x80] =
    "a€\uFFFD\uFFFD😀" := by decide

def utf8Bytes (s : String) : List UInt8 := s.toUTF8.data.toList

def fromUtf8 (bytes : List UInt8) : Option String := String.fromUTF8? ⟨bytes.toArray⟩

@[simp] theorem fromUtf8_utf8Bytes (s : String) : fromUtf8 (utf8Bytes s) = some s := by
  have hvalid : s.toByteArray.IsValidUTF8 := s.isValidUTF8
  simp only [fromUtf8, utf8Bytes, String.fromUTF8?, String.toUTF8_eq_toByteArray,
    Array.toArray_toList, dif_pos hvalid]
  rfl

theorem fromUtf8_eq_some {bytes : List UInt8} : fromUtf8 bytes = some s ↔ bytes = utf8Bytes s := by
  constructor
  · intro h
    unfold fromUtf8 String.fromUTF8? at h
    split at h
    · rw [← Option.some.inj h]
      rfl
    · cases h
  · rintro rfl
    exact fromUtf8_utf8Bytes s

theorem utf8Bytes_ofList (cs : List Char) :
    utf8Bytes (String.ofList cs) = cs.flatMap String.utf8EncodeChar := by
  simp [utf8Bytes, List.utf8Encode]

@[simp] theorem utf8Bytes_append (s t : String) :
    utf8Bytes (s ++ t) = utf8Bytes s ++ utf8Bytes t := by
  simp [utf8Bytes]

theorem toNat_ofNat_byte (h : n < 256) : (UInt8.ofNat n).toNat = n := by
  simp [Nat.mod_eq_of_lt h]

theorem isContinuation_tail (n : Nat) : isContinuation (n % 0x40 + 0x80) = true := by
  simp [isContinuation]
  omega

theorem lossyChars_utf8EncodeChar (c : Char) (rest : List UInt8) :
    lossyChars (String.utf8EncodeChar c ++ rest) = c :: lossyChars rest := by
  have hvalid : c.toNat < 0xD800 ∨ 0xDFFF < c.toNat ∧ c.toNat < 0x110000 := c.valid
  have hchar : Char.ofNat c.toNat = c := Char.ofNat_toNat c
  have hval : c.val.toNat = c.toNat := rfl
  simp only [String.utf8EncodeChar, hval]
  generalize c.toNat = v at hvalid hchar ⊢
  subst hchar
  have htail : ∀ n, n % 0x40 + 0x80 < 256 := fun n => by omega
  split
  · have hwidth : utf8Width v = 1 := by
      unfold utf8Width
      rw [if_pos (by omega)]
    simp only [List.cons_append, List.nil_append]
    rw [lossyChars.eq_def]
    simp only [toNat_ofNat_byte (show v < 256 by omega), hwidth]
    simp
  · split
    · have hfirst : v / 64 % 0x20 + 0xc0 < 256 := by omega
      have hwidth : utf8Width (v / 64 % 0x20 + 0xc0) = 2 := by
        unfold utf8Width
        rw [if_neg (by omega), if_neg (by omega), if_pos (by omega)]
      have hsecond : isSecond (v / 64 % 0x20 + 0xc0) (v % 0x40 + 0x80) = true := by
        unfold isSecond
        rw [if_neg (by omega), if_neg (by omega), if_neg (by omega), if_neg (by omega),
          isContinuation_tail]
      have hback : (v / 64 % 0x20 + 0xc0) % 0x20 * 0x40 + (v % 0x40 + 0x80) % 0x40 = v := by omega
      simp only [List.cons_append, List.nil_append]
      rw [lossyChars.eq_def]
      simp only [toNat_ofNat_byte hfirst, toNat_ofNat_byte (htail _), hwidth, hsecond, hback]
      simp
    · split
      · have hfirst : v / 4096 % 0x10 + 0xe0 < 256 := by omega
        have hwidth : utf8Width (v / 4096 % 0x10 + 0xe0) = 3 := by
          unfold utf8Width
          rw [if_neg (by omega), if_neg (by omega), if_neg (by omega), if_pos (by omega)]
        have hsecond : isSecond (v / 4096 % 0x10 + 0xe0) (v / 64 % 0x40 + 0x80) = true := by
          unfold isSecond
          split
          · simp; omega
          · split
            · simp; omega
            · rw [if_neg (by omega), if_neg (by omega), isContinuation_tail]
        have hback : (v / 4096 % 0x10 + 0xe0) % 0x10 * 0x1000 +
            (v / 64 % 0x40 + 0x80) % 0x40 * 0x40 + (v % 0x40 + 0x80) % 0x40 = v := by omega
        simp only [List.cons_append, List.nil_append]
        rw [lossyChars.eq_def]
        simp only [toNat_ofNat_byte hfirst, toNat_ofNat_byte (htail _), hwidth, hsecond,
          isContinuation_tail, hback]
        simp
      · have hfirst : v / 262144 % 0x08 + 0xf0 < 256 := by omega
        have hwidth : utf8Width (v / 262144 % 0x08 + 0xf0) = 4 := by
          unfold utf8Width
          rw [if_neg (by omega), if_neg (by omega), if_neg (by omega), if_neg (by omega),
            if_pos (by omega)]
        have hsecond : isSecond (v / 262144 % 0x08 + 0xf0) (v / 4096 % 0x40 + 0x80) = true := by
          unfold isSecond
          rw [if_neg (by omega), if_neg (by omega)]
          split
          · simp; omega
          · split
            · simp; omega
            · rw [isContinuation_tail]
        have hback : (v / 262144 % 0x08 + 0xf0) % 0x08 * 0x40000 +
            (v / 4096 % 0x40 + 0x80) % 0x40 * 0x1000 + (v / 64 % 0x40 + 0x80) % 0x40 * 0x40 +
            (v % 0x40 + 0x80) % 0x40 = v := by omega
        simp only [List.cons_append, List.nil_append]
        rw [lossyChars.eq_def]
        simp only [toNat_ofNat_byte hfirst, toNat_ofNat_byte (htail _), hwidth, hsecond,
          isContinuation_tail, hback]
        simp

theorem fromUtf8Lossy_utf8Bytes (s : String) : fromUtf8Lossy (utf8Bytes s) = s := by
  have hall : ∀ cs : List Char, lossyChars (cs.flatMap String.utf8EncodeChar) = cs := by
    intro cs
    induction cs with
    | nil => rfl
    | cons c cs ih => rw [List.flatMap_cons, lossyChars_utf8EncodeChar, ih]
  have hbytes := utf8Bytes_ofList s.toList
  rw [String.ofList_toList] at hbytes
  rw [fromUtf8Lossy, hbytes, hall, String.ofList_toList]

theorem toByteArray_eq {bytes : List UInt8} (h : bytes = utf8Bytes s) :
    (⟨bytes.toArray⟩ : ByteArray) = s.toByteArray := by
  subst h
  rfl

/-- What follows the bytes of a string in the bytes of another is a string. -/
theorem utf8Bytes_prefix {bytes : List UInt8} (h : utf8Bytes s ++ bytes = utf8Bytes t) :
    ∃ u, t = s ++ u ∧ bytes = utf8Bytes u := by
  have hprefix : s.toList <+: t.toList := by
    refine List.isPrefix_of_utf8Encode_append_eq_utf8Encode ⟨bytes.toArray⟩ ?_
    rw [String.utf8Encode_toList, String.utf8Encode_toList, ← toByteArray_eq h]
    apply ByteArray.ext
    apply Array.toList_inj.mp
    simp [utf8Bytes]
  obtain ⟨cs, hcs⟩ := hprefix
  have ht : t = s ++ String.ofList cs := by
    rw [← String.toList_inj]
    simp [hcs]
  subst ht
  rw [utf8Bytes_append] at h
  exact ⟨String.ofList cs, rfl, List.append_cancel_left h⟩

theorem isSome_fromUtf8_of_append {bytes rest : List UInt8} (h : bytes ++ b :: rest = utf8Bytes t)
    (hb : b.IsUTF8FirstByte) : (fromUtf8 bytes).isSome := by
  have ht : t.toByteArray = ⟨(bytes ++ b :: rest).toArray⟩ := (toByteArray_eq h).symm
  have hlt : bytes.length < t.toByteArray.size := by
    rw [ht]
    simp [ByteArray.size]
  have hget : t.toByteArray[bytes.length] = b := by
    simp only [ht]
    change (bytes ++ b :: rest).toArray[bytes.length] = b
    simp
  have hpos : String.Pos.Raw.IsValid t ⟨bytes.length⟩ := by
    refine String.Pos.Raw.isValid_iff_isUTF8FirstByte.mpr (.inr ⟨hlt, ?_⟩)
    rwa [String.getUTF8Byte_eq_getElem, hget]
  have hcut : (⟨(bytes ++ b :: rest).toArray⟩ : ByteArray).extract 0 bytes.length =
      ⟨bytes.toArray⟩ := by
    apply ByteArray.ext
    simp
  have hvalid := hpos.isValidUTF8_extract_zero
  rw [ht, hcut] at hvalid
  simp [fromUtf8, String.fromUTF8?, hvalid]

end Rinfra
