import BinaryImage.Text.Utf8

/-!
Text that is encoded and decoded again. The byte that starts a character says how many follow it,
and between which bounds the next one lies. The encoding of a character keeps to these bounds, so
decoding it never comes to a replacement. Text without replacements can come from its own encoding
alone.
-/

namespace BinaryImage.Text.Utf8

section Bytes

variable {byte : UInt8} {owed low high value : Nat} {rest : Bytes}

theorem lead_of_two (least : 0xc2 ≤ byte.toNat) (most : byte.toNat < 0xe0) :
    lead byte = ([], some ⟨0, 0x80, 0xbf, byte.toNat - 0xc0⟩) := by
  grind [lead]

-- The bounds behind the least of these bytes keep out overlong forms, and those behind `0xed`
-- surrogates.
theorem lead_of_three (least : 0xe0 ≤ byte.toNat) (most : byte.toNat < 0xf0) :
    lead byte = ([], some ⟨1, if byte.toNat = 0xe0 then 0xa0 else 0x80,
      if byte.toNat = 0xed then 0x9f else 0xbf, byte.toNat - 0xe0⟩) := by
  grind [lead]

theorem lead_of_four (least : 0xf0 ≤ byte.toNat) (most : byte.toNat < 0xf5) :
    lead byte = ([], some ⟨2, if byte.toNat = 0xf0 then 0x90 else 0x80,
      if byte.toNat = 0xf4 then 0x8f else 0xbf, byte.toNat - 0xf0⟩) := by
  grind [lead]

theorem decode_from_lead {pending : Pending} (led : lead byte = ([], some pending)) :
    decodeFrom none (byte :: rest) = decodeFrom (some pending) rest := by
  simp [decodeFrom, step, led]

theorem decode_from_inner (least : low ≤ byte.toNat) (most : byte.toNat ≤ high) :
    decodeFrom (some ⟨owed + 1, low, high, value⟩) (byte :: rest) =
      decodeFrom (some ⟨owed, 0x80, 0xbf, value * 64 + (byte.toNat - 0x80)⟩) rest := by
  simp [decodeFrom, step, extend, least, most]

theorem decode_from_last (least : low ≤ byte.toNat) (most : byte.toNat ≤ high) :
    decodeFrom (some ⟨0, low, high, value⟩) (byte :: rest) =
      Char.ofNat (value * 64 + (byte.toNat - 0x80)) :: decodeFrom none rest := by
  simp [decodeFrom, step, extend, least, most]

end Bytes

section Characters

variable {code : Nat} (rest : Bytes)

theorem toNat_of_small (value : Nat) (small : value < 256) : (UInt8.ofNat value).toNat = value :=
  UInt8.toNat_ofNat_of_lt small

theorem decode_from_one (most : code ≤ 0x7f) :
    decodeFrom none (UInt8.ofNat code :: rest) = Char.ofNat code :: decodeFrom none rest := by
  have first : (UInt8.ofNat code).toNat = code := toNat_of_small code (by omega)
  have below : code < 0x80 := Nat.lt_succ_of_le most
  simp [decodeFrom, step, lead, first, below]

theorem decode_from_two (least : 0x7f < code) (most : code ≤ 0x7ff) :
    decodeFrom none (UInt8.ofNat (code / 64 % 0x20 + 0xc0) :: UInt8.ofNat (code % 0x40 + 0x80) ::
      rest) = Char.ofNat code :: decodeFrom none rest := by
  have first := toNat_of_small (code / 64 % 0x20 + 0xc0) (by omega)
  have second := toNat_of_small (code % 0x40 + 0x80) (by omega)
  rw [decode_from_lead (lead_of_two (by omega) (by omega)),
    decode_from_last (by omega) (by omega), first, second]
  have parts : (code / 64 % 0x20 + 0xc0 - 0xc0) * 64 + (code % 0x40 + 0x80 - 0x80) = code := by
    omega
  rw [parts]

theorem decode_from_three (least : 0x7ff < code) (most : code ≤ 0xffff)
    (valid : code < 0xd800 ∨ 0xdfff < code) :
    decodeFrom none (UInt8.ofNat (code / 4096 % 0x10 + 0xe0) ::
      UInt8.ofNat (code / 64 % 0x40 + 0x80) :: UInt8.ofNat (code % 0x40 + 0x80) :: rest) =
        Char.ofNat code :: decodeFrom none rest := by
  have first := toNat_of_small (code / 4096 % 0x10 + 0xe0) (by omega)
  have second := toNat_of_small (code / 64 % 0x40 + 0x80) (by omega)
  have third := toNat_of_small (code % 0x40 + 0x80) (by omega)
  rw [decode_from_lead (lead_of_three (by omega) (by omega)),
    decode_from_inner (by split <;> omega) (by split <;> omega),
    decode_from_last (by omega) (by omega), first, second, third]
  have parts : ((code / 4096 % 0x10 + 0xe0 - 0xe0) * 64 + (code / 64 % 0x40 + 0x80 - 0x80)) * 64 +
      (code % 0x40 + 0x80 - 0x80) = code := by
    omega
  rw [parts]

theorem decode_from_four (least : 0xffff < code) (most : code < 0x110000) :
    decodeFrom none (UInt8.ofNat (code / 262144 % 0x08 + 0xf0) ::
      UInt8.ofNat (code / 4096 % 0x40 + 0x80) :: UInt8.ofNat (code / 64 % 0x40 + 0x80) ::
        UInt8.ofNat (code % 0x40 + 0x80) :: rest) = Char.ofNat code :: decodeFrom none rest := by
  have first := toNat_of_small (code / 262144 % 0x08 + 0xf0) (by omega)
  have second := toNat_of_small (code / 4096 % 0x40 + 0x80) (by omega)
  have third := toNat_of_small (code / 64 % 0x40 + 0x80) (by omega)
  have fourth := toNat_of_small (code % 0x40 + 0x80) (by omega)
  rw [decode_from_lead (lead_of_four (by omega) (by omega)),
    decode_from_inner (by split <;> omega) (by split <;> omega),
    decode_from_inner (by omega) (by omega), decode_from_last (by omega) (by omega), first, second,
    third, fourth]
  have parts : (((code / 262144 % 0x08 + 0xf0 - 0xf0) * 64 + (code / 4096 % 0x40 + 0x80 - 0x80)) *
      64 + (code / 64 % 0x40 + 0x80 - 0x80)) * 64 + (code % 0x40 + 0x80 - 0x80) = code := by
    omega
  rw [parts]

/-- The bytes of a character are read back as it, whatever stands behind them. -/
theorem decode_from_encode_char (char : Char) :
    decodeFrom none (String.utf8EncodeChar char ++ rest) = char :: decodeFrom none rest := by
  have valid : char.val.toNat < 0xd800 ∨ 0xdfff < char.val.toNat ∧ char.val.toNat < 0x110000 :=
    char.valid
  have same : Char.ofNat char.val.toNat = char := Char.ofNat_toNat char
  rw [← congrArg (· :: decodeFrom none rest) same]
  unfold String.utf8EncodeChar
  simp only
  split
  · next one => exact decode_from_one rest one
  · split
    · next two => exact decode_from_two rest (by omega) two
    · split
      · next three => exact decode_from_three rest (by omega) three (by omega)
      · exact decode_from_four rest (by omega) (by omega)

end Characters

theorem decode_from_flatMap (chars : List Char) :
    decodeFrom none (chars.flatMap String.utf8EncodeChar) = chars := by
  induction chars with
  | nil => rfl
  | cons char rest ih => rw [List.flatMap_cons, decode_from_encode_char, ih]

/-- Decoding is exact on what was encoded. -/
theorem decode_encode (text : String) : decode (encode text) = text := by
  rw [decode, encode, decode_from_flatMap, String.ofList_toList]

section Clean

variable {a b c d : UInt8} {bytes : Bytes}

theorem toNat_of_valid {code : Nat} (valid : code < 0xd800 ∨ 0xdfff < code ∧ code < 0x110000) :
    (Char.ofNat code).val.toNat = code := by
  have isValid : code.isValidChar := valid
  rw [Char.ofNat, dif_pos isValid]
  rfl

theorem encode_one (most : a.toNat < 0x80) :
    String.utf8EncodeChar (Char.ofNat a.toNat) = [a] := by
  simp only [String.utf8EncodeChar, toNat_of_valid (.inl (Nat.lt_trans most (by decide)))]
  rw [if_pos (by omega), UInt8.ofNat_toNat]

theorem encode_two (leastA : 0xc2 ≤ a.toNat) (mostA : a.toNat < 0xe0) (leastB : 0x80 ≤ b.toNat)
    (mostB : b.toNat ≤ 0xbf) :
    String.utf8EncodeChar (Char.ofNat ((a.toNat - 0xc0) * 64 + (b.toNat - 0x80))) = [a, b] := by
  generalize value : (a.toNat - 0xc0) * 64 + (b.toNat - 0x80) = code
  have first : code / 64 % 0x20 + 0xc0 = a.toNat := by omega
  have second : code % 0x40 + 0x80 = b.toNat := by omega
  simp only [String.utf8EncodeChar, toNat_of_valid (.inl (show code < 0xd800 by omega))]
  rw [if_neg (by omega), if_pos (by omega), first, second, UInt8.ofNat_toNat, UInt8.ofNat_toNat]

theorem encode_three (leastA : 0xe0 ≤ a.toNat) (mostA : a.toNat < 0xf0)
    (leastB : (if a.toNat = 0xe0 then 0xa0 else 0x80) ≤ b.toNat)
    (mostB : b.toNat ≤ if a.toNat = 0xed then 0x9f else 0xbf) (leastC : 0x80 ≤ c.toNat)
    (mostC : c.toNat ≤ 0xbf) :
    String.utf8EncodeChar (Char.ofNat (((a.toNat - 0xe0) * 64 + (b.toNat - 0x80)) * 64 +
      (c.toNat - 0x80))) = [a, b, c] := by
  have inner : 0x80 ≤ b.toNat ∧ b.toNat ≤ 0xbf := by
    split at leastB <;> split at mostB <;> omega
  generalize value : ((a.toNat - 0xe0) * 64 + (b.toNat - 0x80)) * 64 + (c.toNat - 0x80) = code
  -- The bounds behind the first byte keep the value out of the range of shorter encodings, and
  -- out of that of the surrogates.
  have long : 0x7ff < code := by split at leastB <;> omega
  have valid : code < 0xd800 ∨ 0xdfff < code ∧ code < 0x110000 := by split at mostB <;> omega
  have first : code / 4096 % 0x10 + 0xe0 = a.toNat := by omega
  have second : code / 64 % 0x40 + 0x80 = b.toNat := by omega
  have third : code % 0x40 + 0x80 = c.toNat := by omega
  simp only [String.utf8EncodeChar, toNat_of_valid valid]
  rw [if_neg (by omega), if_neg (by omega), if_pos (by omega), first, second, third,
    UInt8.ofNat_toNat, UInt8.ofNat_toNat, UInt8.ofNat_toNat]

theorem encode_four (leastA : 0xf0 ≤ a.toNat) (mostA : a.toNat < 0xf5)
    (leastB : (if a.toNat = 0xf0 then 0x90 else 0x80) ≤ b.toNat)
    (mostB : b.toNat ≤ if a.toNat = 0xf4 then 0x8f else 0xbf) (leastC : 0x80 ≤ c.toNat)
    (mostC : c.toNat ≤ 0xbf) (leastD : 0x80 ≤ d.toNat) (mostD : d.toNat ≤ 0xbf) :
    String.utf8EncodeChar (Char.ofNat ((((a.toNat - 0xf0) * 64 + (b.toNat - 0x80)) * 64 +
      (c.toNat - 0x80)) * 64 + (d.toNat - 0x80))) = [a, b, c, d] := by
  have inner : 0x80 ≤ b.toNat ∧ b.toNat ≤ 0xbf := by
    split at leastB <;> split at mostB <;> omega
  generalize value : (((a.toNat - 0xf0) * 64 + (b.toNat - 0x80)) * 64 + (c.toNat - 0x80)) * 64 +
    (d.toNat - 0x80) = code
  have long : 0xffff < code := by split at leastB <;> omega
  have valid : code < 0xd800 ∨ 0xdfff < code ∧ code < 0x110000 := by split at mostB <;> omega
  have first : code / 262144 % 0x08 + 0xf0 = a.toNat := by omega
  have second : code / 4096 % 0x40 + 0x80 = b.toNat := by omega
  have third : code / 64 % 0x40 + 0x80 = c.toNat := by omega
  have fourth : code % 0x40 + 0x80 = d.toNat := by omega
  simp only [String.utf8EncodeChar, toNat_of_valid valid]
  rw [if_neg (by omega), if_neg (by omega), if_neg (by omega), first, second, third, fourth,
    UInt8.ofNat_toNat, UInt8.ofNat_toNat, UInt8.ofNat_toNat, UInt8.ofNat_toNat]

/-- A byte between characters is one by itself, or broken, or starts one of two to four bytes. -/
theorem lead_cases (byte : UInt8) :
    byte.toNat < 0x80 ∧ lead byte = ([Char.ofNat byte.toNat], none) ∨
      lead byte = ([replacement], none) ∨ 0xc2 ≤ byte.toNat ∧ byte.toNat < 0xe0 ∨
      0xe0 ≤ byte.toNat ∧ byte.toNat < 0xf0 ∨ 0xf0 ≤ byte.toNat ∧ byte.toNat < 0xf5 := by
  grind [lead]

def Inner (byte : UInt8) : Prop := 0x80 ≤ byte.toNat ∧ byte.toNat ≤ 0xbf

structure BeginsFour (a b c : UInt8) : Prop where
  least : 0xf0 ≤ a.toNat
  most : a.toNat < 0xf5
  second : (if a.toNat = 0xf0 then 0x90 else 0x80) ≤ b.toNat ∧
    b.toNat ≤ if a.toNat = 0xf4 then 0x8f else 0xbf
  third : Inner c

/-- Bytes and the characters that are read from them, piece by piece. What cannot be finished is
broken off after one or two bytes, or torn off right before the last byte of four. -/
inductive Decodes : Bytes → List Char → Prop
  | nil : Decodes [] []
  | char {rest : Bytes} {chars : List Char} (char : Char) (later : Decodes rest chars) :
    Decodes (String.utf8EncodeChar char ++ rest) (char :: chars)
  | broken {rest : Bytes} {chars : List Char} (front : Bytes) (short : front.length ≤ 2)
    (later : Decodes rest chars) : Decodes (front ++ rest) (replacement :: chars)
  | torn {a b c : UInt8} {rest : Bytes} {chars : List Char} (begins : BeginsFour a b c)
    (stops : ∀ next ∈ rest.head?, ¬ Inner next) (later : Decodes rest chars) :
    Decodes ([a, b, c] ++ rest) (replacement :: chars)

theorem Decodes.front {rest front : Bytes} {chars : List Char} {char : Char}
    (encoded : String.utf8EncodeChar char = front) (later : Decodes rest chars) :
    Decodes (front ++ rest) (char :: chars) := encoded ▸ .char char later

/-- The byte that a sequence waits for stands next, or the sequence comes to a replacement. -/
theorem decodes_of_next {pending : Pending} {whole bytes : Bytes}
    (stops : (∀ next ∈ bytes.head?, ¬ (pending.low ≤ next.toNat ∧ next.toNat ≤ pending.high)) →
      Decodes whole (replacement :: decodeFrom none bytes))
    (goesOn : ∀ next rest, bytes = next :: rest → pending.low ≤ next.toNat →
      next.toNat ≤ pending.high → Decodes whole (decodeFrom (some pending) bytes)) :
    Decodes whole (decodeFrom (some pending) bytes) := by
  cases bytes with
  | nil => exact stops fun _ none => nomatch none
  | cons next rest =>
    by_cases fits : pending.low ≤ next.toNat ∧ next.toNat ≤ pending.high
    · exact goesOn next rest rfl fits.1 fits.2
    · have read : decodeFrom (some pending) (next :: rest) =
          replacement :: decodeFrom none (next :: rest) := by
        simp [decodeFrom, step, if_neg fits]
      rw [read]
      apply stops
      rintro _ ⟨⟩
      exact fits

theorem decodes (bytes : Bytes) : Decodes bytes (decodeFrom none bytes) := by
  induction known : bytes.length using Nat.strongRecOn generalizing bytes with
  | ind size ih =>
    have later : ∀ rest : Bytes, rest.length < size → Decodes rest (decodeFrom none rest) :=
      fun rest shorter => ih rest.length shorter rest rfl
    subst known
    cases bytes with
    | nil => exact .nil
    | cons a bytes =>
      rcases lead_cases a with ⟨most, led⟩ | led | ⟨least, most⟩ | ⟨least, most⟩ | ⟨least, most⟩
      · have read : decodeFrom none (a :: bytes) = Char.ofNat a.toNat :: decodeFrom none bytes := by
          simp [decodeFrom, step, led]
        rw [read]
        exact .front (encode_one most) (later bytes (by simp +arith))
      · have read : decodeFrom none (a :: bytes) = replacement :: decodeFrom none bytes := by
          simp [decodeFrom, step, led]
        rw [read]
        exact .broken [a] (by simp) (later bytes (by simp +arith))
      · rw [decode_from_lead (lead_of_two least most)]
        refine decodes_of_next (fun _ => .broken [a] (by simp) (later bytes (by simp +arith))) ?_
        rintro b bytes rfl leastB mostB
        rw [decode_from_last leastB mostB]
        exact .front (encode_two least most leastB mostB) (later bytes (by simp +arith))
      · rw [decode_from_lead (lead_of_three least most)]
        refine decodes_of_next (fun _ => .broken [a] (by simp) (later bytes (by simp +arith))) ?_
        rintro b bytes rfl leastB mostB
        rw [decode_from_inner leastB mostB]
        refine decodes_of_next
          (fun _ => .broken [a, b] (by simp) (later bytes (by simp +arith))) ?_
        rintro c bytes rfl leastC mostC
        rw [decode_from_last leastC mostC]
        exact .front (encode_three least most leastB mostB leastC mostC)
          (later bytes (by simp +arith))
      · rw [decode_from_lead (lead_of_four least most)]
        refine decodes_of_next (fun _ => .broken [a] (by simp) (later bytes (by simp +arith))) ?_
        rintro b bytes rfl leastB mostB
        rw [decode_from_inner leastB mostB]
        refine decodes_of_next
          (fun _ => .broken [a, b] (by simp) (later bytes (by simp +arith))) ?_
        rintro c bytes rfl leastC mostC
        rw [decode_from_inner leastC mostC]
        refine decodes_of_next (fun stops => .torn ⟨least, most, ⟨leastB, mostB⟩, ⟨leastC, mostC⟩⟩
          stops (later bytes (by simp +arith))) ?_
        rintro d bytes rfl leastD mostD
        rw [decode_from_last leastD mostD]
        exact .front (encode_four least most leastB mostB leastC mostC leastD mostD)
          (later bytes (by simp +arith))

/-- Bytes that decode without replacements are those of the text. -/
theorem encode_decode_from {bytes : Bytes} (clean : replacement ∉ decodeFrom none bytes) :
    (decodeFrom none bytes).flatMap String.utf8EncodeChar = bytes := by
  have decoded := decodes bytes
  generalize decodeFrom none bytes = chars at clean decoded
  induction decoded with
  | nil => rfl
  | char char later ih =>
    rw [List.flatMap_cons, ih fun found => clean (List.mem_cons_of_mem _ found)]
  | broken => exact absurd List.mem_cons_self clean
  | torn => exact absurd List.mem_cons_self clean

/-- Without replacements, text is read from the bytes of its encoding and from no others. -/
theorem decode_eq_iff {text : String} (clean : replacement ∉ text.toList) :
    decode bytes = text ↔ bytes = encode text := by
  constructor
  · rintro rfl
    rw [decode, String.toList_ofList] at clean
    rw [decode, encode, String.toList_ofList, encode_decode_from clean]
  · rintro rfl
    exact decode_encode text

end Clean

section Lengths

variable {bytes : Bytes} {chars : List Char}

/-- The second bytes are the first, where a sequence of four that is torn off before its last byte
is overwritten by the replacement. -/
inductive Recoded : Bytes → Bytes → Prop
  | nil : Recoded [] []
  | char {rest other : Bytes} (char : Char) (later : Recoded rest other) :
    Recoded (String.utf8EncodeChar char ++ rest) (String.utf8EncodeChar char ++ other)
  | torn {a b c : UInt8} {rest other : Bytes} (begins : BeginsFour a b c)
    (stops : ∀ next ∈ rest.head?, ¬ Inner next) (later : Recoded rest other) :
    Recoded ([a, b, c] ++ rest) ([0xef, 0xbf, 0xbd] ++ other)

theorem encode_replacement : String.utf8EncodeChar replacement = [0xef, 0xbf, 0xbd] := by
  decide +kernel

/-- A replacement takes three bytes, and stands for no more than three. -/
theorem Decodes.length_le (decoded : Decodes bytes chars) :
    bytes.length ≤ (chars.flatMap String.utf8EncodeChar).length := by
  induction decoded with
  | nil => exact Nat.le_refl _
  | char char later ih =>
    rw [List.flatMap_cons, List.length_append, List.length_append]
    omega
  | broken front short later ih =>
    rw [List.flatMap_cons, List.length_append, List.length_append, encode_replacement]
    simp only [List.length_cons, List.length_nil]
    omega
  | torn begins stops later ih =>
    rw [List.flatMap_cons, List.length_append, List.length_append, encode_replacement]
    simp only [List.length_cons, List.length_nil]
    omega

-- Where the encoding has grown at one place, no other place makes up for it.
theorem Decodes.recoded (decoded : Decodes bytes chars)
    (fits : (chars.flatMap String.utf8EncodeChar).length ≤ bytes.length) :
    Recoded bytes (chars.flatMap String.utf8EncodeChar) := by
  induction decoded with
  | nil => exact .nil
  | char char later ih =>
    rw [List.flatMap_cons, List.length_append, List.length_append] at fits
    exact .char char (ih (by omega))
  | broken front short later ih =>
    have enough := later.length_le
    rw [List.flatMap_cons, List.length_append, List.length_append, encode_replacement] at fits
    simp only [List.length_cons, List.length_nil] at fits
    omega
  | torn begins stops later ih =>
    rw [List.flatMap_cons, encode_replacement] at fits ⊢
    refine .torn begins stops (ih ?_)
    simpa using fits

theorem encode_decode (bytes : Bytes) :
    encode (decode bytes) = (decodeFrom none bytes).flatMap String.utf8EncodeChar := by
  rw [decode, encode, String.toList_ofList]

/-- Text that was read from bytes and fits where they were differs from them in torn sequences
alone. -/
theorem recoded_of_fits (fits : (encode (decode bytes)).length ≤ bytes.length) :
    Recoded bytes (encode (decode bytes)) := by
  rw [encode_decode] at fits ⊢
  exact (decodes bytes).recoded fits

theorem Recoded.length_eq {other : Bytes} (recoded : Recoded bytes other) :
    other.length = bytes.length := by
  induction recoded with
  | nil => rfl
  | char char later ih => rw [List.length_append, List.length_append, ih]
  | torn begins stops later ih => simp [ih]

/-- Bytes come back from the text that they read as when they are the encoding of a text. -/
theorem encode_decode_eq_iff : encode (decode bytes) = bytes ↔ ∃ text, bytes = encode text := by
  constructor
  · intro same
    exact ⟨decode bytes, same.symm⟩
  · rintro ⟨text, rfl⟩
    rw [decode_encode]

-- Three bytes of a sequence of four, in front of another character.
example : encode (decode [0xf0, 0x9f, 0x92, 0x62]) = [0xef, 0xbf, 0xbd, 0x62] := by
  decide +kernel

end Lengths

end BinaryImage.Text.Utf8
