import TsCommons.Foundations.Utf8

/-!
# Form data in a URL

The names and values of a form are written in UTF-8.  A letter, a digit or one
of four marks stands for itself, a plus sign for a space, and every other byte
is written as two hexadecimal digits after a percent sign.  A reader splits at
the ampersands, and each part at its first equals sign.
-/

namespace TsCommons.Foundations

namespace UrlSearchParams

/-! ## Bytes -/

def isUnreserved (byte : UInt8) : Bool :=
  let code := byte.toNat
  (48 ≤ code && code ≤ 57) || (65 ≤ code && code ≤ 90) ||
    (97 ≤ code && code ≤ 122) || code = 42 || code = 45 || code = 46 ||
    code = 95

def hexDigit (value : ℕ) : UInt8 := UInt8.ofNat (Hex.code 65 value)

def encodeByte (byte : UInt8) : Bytes :=
  if isUnreserved byte then [byte]
  else if byte = 32 then [43]
  else [37, hexDigit (byte.toNat / 16), hexDigit (byte.toNat % 16)]

def plusToSpace (byte : UInt8) : UInt8 := if byte = 43 then 32 else byte

/-- A percent sign without two digits behind it stands for itself. -/
def percentDecode : Bytes → Bytes
  | [] => []
  | [byte] => [byte]
  | [byte, next] => [byte, next]
  | byte :: high :: low :: rest =>
      if byte = 37 then
        match Hex.value high.toNat, Hex.value low.toNat with
        | some first, some second =>
            UInt8.ofNat (first * 16 + second) :: percentDecode rest
        | _, _ => byte :: percentDecode (high :: low :: rest)
      else byte :: percentDecode (high :: low :: rest)

variable {byte digit : UInt8} {bytes : Bytes}

theorem encodeByte_cases (byte : UInt8) :
    (encodeByte byte = [byte] ∧ byte ≠ 37 ∧ plusToSpace byte = byte) ∨
      (encodeByte byte = [43] ∧ byte = 32) ∨
      encodeByte byte =
        [37, hexDigit (byte.toNat / 16), hexDigit (byte.toNat % 16)] := by
  unfold encodeByte
  split
  · rename_i hunreserved
    refine .inl ⟨rfl, ?_, if_neg ?_⟩
    · rintro rfl
      cases hunreserved
    · rintro rfl
      cases hunreserved
  · split
    · rename_i hspace
      exact .inr (.inl ⟨rfl, hspace⟩)
    · exact .inr (.inr rfl)

theorem ne_of_isUnreserved (hunreserved : isUnreserved byte = true) :
    byte ≠ 38 ∧ byte ≠ 61 ∧ byte < 128 := by
  refine ⟨?_, ?_, ?_⟩
  · rintro rfl
    cases hunreserved
  · rintro rfl
    cases hunreserved
  · have hlt : byte.toNat < 128 := by
      simp only [isUnreserved, Bool.or_eq_true, Bool.and_eq_true,
        decide_eq_true_eq] at hunreserved
      omega
    exact hlt

theorem hexDigit_ne {value : ℕ} (hlt : value < 16) :
    hexDigit value ≠ 38 ∧ hexDigit value ≠ 61 ∧ hexDigit value < 128 := by
  have hall : ∀ value : Fin 16, hexDigit value.val ≠ 38 ∧
      hexDigit value.val ≠ 61 ∧ hexDigit value.val < 128 := by decide
  exact hall ⟨value, hlt⟩

theorem mem_encodeByte (hmem : digit ∈ encodeByte byte) :
    digit ≠ 38 ∧ digit ≠ 61 ∧ digit < 128 := by
  have hbound := byte.toNat_lt
  rw [encodeByte] at hmem
  split at hmem
  · rename_i hunreserved
    cases List.mem_singleton.mp hmem
    exact ne_of_isUnreserved hunreserved
  split at hmem
  · cases List.mem_singleton.mp hmem
    decide
  · simp only [List.mem_cons, List.not_mem_nil, or_false] at hmem
    rcases hmem with rfl | rfl | rfl
    · decide
    · exact hexDigit_ne (by omega)
    · exact hexDigit_ne (by omega)

theorem value_hexDigit {value : ℕ} (hlt : value < 16) :
    Hex.value (hexDigit value).toNat = some value ∧
      plusToSpace (hexDigit value) = hexDigit value := by
  have hall : ∀ value : Fin 16, Hex.value (hexDigit value.val).toNat =
      some value.val ∧
        plusToSpace (hexDigit value.val) = hexDigit value.val := by decide
  exact hall ⟨value, hlt⟩

theorem percentDecode_cons_of_ne (hbyte : byte ≠ 37) (rest : Bytes) :
    percentDecode (byte :: rest) = byte :: percentDecode rest := by
  match rest with
  | [] => rfl
  | [_] => rfl
  | _ :: _ :: _ => rw [percentDecode, if_neg hbyte]

theorem percentDecode_encodeByte (byte : UInt8) (rest : Bytes) :
    percentDecode ((encodeByte byte).map plusToSpace ++ rest) =
      byte :: percentDecode rest := by
  have hlt := byte.toNat_lt
  rcases encodeByte_cases byte with
    ⟨hencode, hbyte, hplus⟩ | ⟨hencode, rfl⟩ | hencode
  · rw [hencode, List.map_singleton, hplus]
    exact percentDecode_cons_of_ne hbyte rest
  · rw [hencode]
    exact percentDecode_cons_of_ne (by decide) rest
  · obtain ⟨hhigh, hhighKept⟩ := value_hexDigit
      (show byte.toNat / 16 < 16 by omega)
    obtain ⟨hlow, hlowKept⟩ := value_hexDigit
      (show byte.toNat % 16 < 16 by omega)
    have hjoined : byte.toNat / 16 * 16 + byte.toNat % 16 = byte.toNat := by
      omega
    rw [hencode, List.map_cons, List.map_cons, List.map_singleton, hhighKept,
      hlowKept]
    change percentDecode (37 :: _ :: _ :: rest) = _
    rw [percentDecode, if_pos rfl, hhigh, hlow]
    simp only [hjoined, UInt8.ofNat_toNat]

theorem percentDecode_flatMap (bytes : Bytes) :
    percentDecode ((bytes.flatMap encodeByte).map plusToSpace) = bytes := by
  induction bytes with
  | nil => rfl
  | cons byte rest ih =>
      rw [List.flatMap_cons, List.map_append, percentDecode_encodeByte, ih]

/-! ## Texts and pairs -/

def encodeText (text : CodeUnits) : Bytes :=
  (Utf8.encode text).flatMap encodeByte

def decodeText (bytes : Bytes) : CodeUnits :=
  Utf8.decode (percentDecode (bytes.map plusToSpace))

def encodePair (pair : CodeUnits × CodeUnits) : Bytes :=
  encodeText pair.1 ++ 61 :: encodeText pair.2

def decodePair (bytes : Bytes) : CodeUnits × CodeUnits :=
  (decodeText (bytes.takeWhile (· ≠ 61)),
    decodeText (bytes.dropWhile (· ≠ 61)).tail)

def encode (params : List (CodeUnits × CodeUnits)) : Bytes :=
  [38].intercalate (params.map encodePair)

/-- `new URLSearchParams(text)` for a text with these bytes in UTF-8. -/
def parse (bytes : Bytes) : List (CodeUnits × CodeUnits) :=
  ((bytes.splitOn 38).filter (· ≠ [])).map decodePair

variable {text : CodeUnits} {pair : CodeUnits × CodeUnits}
  {params : List (CodeUnits × CodeUnits)}

theorem mem_encodeText (hmem : digit ∈ encodeText text) :
    digit ≠ 38 ∧ digit ≠ 61 ∧ digit < 128 := by
  obtain ⟨byte, -, hbyte⟩ := List.mem_flatMap.mp hmem
  exact mem_encodeByte hbyte

theorem decodeText_encodeText (text : CodeUnits) :
    decodeText (encodeText text) = Utf16.toWellFormed text := by
  rw [decodeText, encodeText, percentDecode_flatMap, Utf8.decode_encode]

theorem mem_encodePair (hmem : digit ∈ encodePair pair) :
    digit ≠ 38 ∧ digit < 128 := by
  rcases List.mem_append.mp hmem with hname | hvalue
  · exact ⟨(mem_encodeText hname).1, (mem_encodeText hname).2.2⟩
  rcases List.mem_cons.mp hvalue with rfl | hvalue
  · exact ⟨by decide, by decide⟩
  · exact ⟨(mem_encodeText hvalue).1, (mem_encodeText hvalue).2.2⟩

theorem decodePair_encodePair (pair : CodeUnits × CodeUnits) :
    decodePair (encodePair pair) =
      (Utf16.toWellFormed pair.1, Utf16.toWellFormed pair.2) := by
  have hname : ∀ digit ∈ encodeText pair.1, decide (digit ≠ 61) = true :=
    fun digit hmem => decide_eq_true (mem_encodeText hmem).2.1
  rw [decodePair, encodePair, List.takeWhile_append_of_pos hname,
    List.dropWhile_append_of_pos hname]
  simp only [List.takeWhile_cons, List.dropWhile_cons, ne_eq, not_true_eq_false,
    decide_false, Bool.false_eq_true, if_false, List.append_nil, List.tail_cons,
    decodeText_encodeText]

/-- What is written for a list of pairs is read as the list, with the
replacement character in place of each lone surrogate. -/
theorem parse_encode (params : List (CodeUnits × CodeUnits)) :
    parse (encode params) = params.map fun pair =>
      (Utf16.toWellFormed pair.1, Utf16.toWellFormed pair.2) := by
  cases params with
  | nil => rfl
  | cons first rest =>
      have hampersand : ∀ part ∈ (first :: rest).map encodePair, 38 ∉ part := by
        rintro part hpart hmem
        obtain ⟨pair, -, rfl⟩ := List.mem_map.mp hpart
        exact (mem_encodePair hmem).1 rfl
      have hfull : ∀ part ∈ (first :: rest).map encodePair,
          decide (part ≠ []) = true := by
        intro part hpart
        obtain ⟨pair, -, rfl⟩ := List.mem_map.mp hpart
        exact decide_eq_true (List.append_ne_nil_of_right_ne_nil _
          (List.cons_ne_nil _ _))
      rw [parse, encode, List.splitOn_intercalate 38 hampersand (by simp),
        List.filter_eq_self.mpr hfull, List.map_map]
      exact List.map_congr_left fun pair _ => decodePair_encodePair pair

theorem lt_of_mem_encode (hmem : digit ∈ encode params) : digit < 128 := by
  induction params with
  | nil => cases hmem
  | cons first rest ih =>
      cases rest with
      | nil =>
          rw [encode, List.map_singleton, List.intercalate_singleton] at hmem
          exact (mem_encodePair hmem).2
      | cons second rest =>
          rw [encode, List.map_cons, List.map_cons,
            List.intercalate_cons_cons] at hmem
          rcases List.mem_append.mp hmem with hfirst | hrest
          · rcases List.mem_append.mp hfirst with hpair | hseparator
            · exact (mem_encodePair hpair).2
            · cases List.mem_singleton.mp hseparator
              decide
          · exact ih hrest

/-! ## Texts of ASCII characters -/

/-- The text with these bytes, each below 128. -/
def asciiText (bytes : Bytes) : CodeUnits := bytes.map UInt8.toUInt16

theorem utf8EncodeChar_ofNat {code : ℕ} (hlt : code < 128) :
    String.utf8EncodeChar (Char.ofNat code) = [UInt8.ofNat code] := by
  have hvalue : (Char.ofNat code).val.toNat = code :=
    Utf16.toNat_ofNat (.inl (by omega))
  rw [String.utf8EncodeChar]
  simp only [hvalue]
  exact if_pos (by omega)

theorem utf8Encode_asciiText (hascii : ∀ byte ∈ bytes, byte < 128) :
    Utf8.encode (asciiText bytes) = bytes := by
  induction bytes with
  | nil => rfl
  | cons byte rest ih =>
      rw [List.forall_mem_cons] at hascii
      have hlt : byte.toNat < 128 := hascii.1
      have hsingle : ¬ (Utf16.IsHigh byte.toUInt16 ∨
          Utf16.IsLow byte.toUInt16) := by
        rw [Utf16.IsHigh, Utf16.IsLow, UInt8.toNat_toUInt16]
        omega
      have hrest : Utf8.encode (asciiText rest) = rest := ih hascii.2
      have hsplit : Utf8.encode (asciiText (byte :: rest)) =
          String.utf8EncodeChar (Char.ofNat byte.toNat) ++
            Utf8.encode (asciiText rest) := by
        rw [Utf8.encode, asciiText, List.map_cons, Utf16.scalars_cons hsingle,
          UInt8.toNat_toUInt16]
        rfl
      rw [hsplit, utf8EncodeChar_ofNat hlt, hrest, UInt8.ofNat_toNat]
      rfl

/-! ## `URLSearchParams` -/

/-- `params.set(name, value)`. -/
def set (params : List (CodeUnits × CodeUnits)) (name value : CodeUnits) :
    List (CodeUnits × CodeUnits) :=
  match params with
  | [] => [(name, value)]
  | pair :: rest =>
      if pair.1 = name then
        (name, value) :: rest.filter fun other => other.1 ≠ name
      else pair :: set rest name value

/-- `params.toString()`. -/
def toText (params : List (CodeUnits × CodeUnits)) : CodeUnits :=
  asciiText (encode params)

/-- `new URLSearchParams(text)` for a text without a question mark in front. -/
def ofText (text : CodeUnits) : List (CodeUnits × CodeUnits) :=
  parse (Utf8.encode text)

/-- `params.get(name)`. -/
def get (params : List (CodeUnits × CodeUnits)) (name : CodeUnits) :
    Option CodeUnits :=
  (params.find? fun pair => pair.1 = name).map Prod.snd

theorem ofText_toText (params : List (CodeUnits × CodeUnits)) :
    ofText (toText params) = params.map fun pair =>
      (Utf16.toWellFormed pair.1, Utf16.toWellFormed pair.2) := by
  rw [ofText, toText, utf8Encode_asciiText fun byte hmem =>
    lt_of_mem_encode hmem, parse_encode]

/-! ## Names -/

variable {name other value : CodeUnits}

theorem get_cons (pair : CodeUnits × CodeUnits)
    (params : List (CodeUnits × CodeUnits)) (name : CodeUnits) :
    get (pair :: params) name =
      if pair.1 = name then some pair.2 else get params name := by
  unfold get
  rw [List.find?_cons]
  by_cases hname : pair.1 = name
  · rw [if_pos hname, decide_eq_true hname]
    rfl
  · rw [if_neg hname, decide_eq_false hname]

theorem get_filter_ne (hne : other ≠ name) :
    get (params.filter fun pair => pair.1 ≠ name) other = get params other := by
  induction params with
  | nil => rfl
  | cons pair rest ih =>
      by_cases hname : pair.1 = name
      · rw [List.filter_cons_of_neg (by simp [hname]), ih, get_cons,
          if_neg (hname ▸ hne.symm)]
      · rw [List.filter_cons_of_pos (by simp [hname]), get_cons, ih,
          ← get_cons]

theorem get_set (params : List (CodeUnits × CodeUnits))
    (name value other : CodeUnits) :
    get (set params name value) other =
      if name = other then some value else get params other := by
  induction params with
  | nil => exact get_cons _ _ _
  | cons pair rest ih =>
      by_cases hname : pair.1 = name
      · rw [set, if_pos hname, get_cons, get_cons]
        by_cases hother : name = other
        · rw [if_pos hother, if_pos hother]
        · rw [if_neg hother, if_neg hother, if_neg (hname ▸ hother),
            get_filter_ne (Ne.symm hother)]
      · rw [set, if_neg hname, get_cons, get_cons, ih]
        by_cases hother : name = other
        · rw [if_pos hother, if_pos hother, if_neg (hother ▸ hname)]
        · rw [if_neg hother, if_neg hother]

/-- The names have no lone surrogates. -/
def NamesWellFormed (params : List (CodeUnits × CodeUnits)) : Prop :=
  ∀ pair ∈ params, Utf16.toWellFormed pair.1 = pair.1

theorem NamesWellFormed.set (hparams : NamesWellFormed params)
    (hname : Utf16.toWellFormed name = name) (value : CodeUnits) :
    NamesWellFormed (set params name value) := by
  induction params with
  | nil => exact List.forall_mem_singleton.mpr hname
  | cons pair rest ih =>
      obtain ⟨hpair, hrest⟩ := List.forall_mem_cons.mp hparams
      rw [UrlSearchParams.set]
      split
      · exact List.forall_mem_cons.mpr ⟨hname, fun other hmem =>
          hrest other (List.mem_of_mem_filter hmem)⟩
      · exact List.forall_mem_cons.mpr ⟨hpair, ih hrest⟩

/-- What is read under a name is what was written under it. -/
theorem get_ofText_toText (hparams : NamesWellFormed params)
    (name : CodeUnits) :
    get (ofText (toText params)) name =
      (get params name).map Utf16.toWellFormed := by
  rw [ofText_toText]
  induction params with
  | nil => rfl
  | cons pair rest ih =>
      obtain ⟨hpair, hrest⟩ := List.forall_mem_cons.mp hparams
      rw [List.map_cons, get_cons, get_cons, ih hrest, hpair]
      split
      · rfl
      · rfl

end UrlSearchParams

end TsCommons.Foundations
