import GmragApi.DocumentUpload
import GmragApi.HeaderParameters
import GmragApi.Text
import GmragApi.Utf8Encoding

/-! The header that names the file of a download: a quoted ASCII name for old clients, and the name
itself, percent-encoded. -/

namespace GmragApi.Download

open HeaderParameters Utf8

section Model

def isUnreserved (b : UInt8) : Bool :=
  let c := Char.ofNat b.toNat
  b.toNat < 0x80 && (c.isAlphanum || c == '-' || c == '.' || c == '_' || c == '~')

def hexUpper (d : Nat) : Char := "0123456789ABCDEF".toList.getD d '0'

def percentEncodeByte (b : UInt8) : List Char :=
  if isUnreserved b then [Char.ofNat b.toNat]
  else ['%', hexUpper (b.toNat / 16), hexUpper (b.toNat % 16)]

def percentEncodeRfc5987 (value : List Char) : List Char :=
  (toUtf8 value).flatMap percentEncodeByte

/-- A character as the quoted name shows it. -/
def quotedChar (c : Char) : Char :=
  if decide (c.toNat < 0x80) && c != '"' && c != '\\' then c else '_'

def asciiFilenameFallback (filename : List Char) : List Char :=
  let sanitized := filename.map quotedChar
  if (trim sanitized).isEmpty then "document".toList else sanitized

def filenameLead : List Char := "inline; filename=\"".toList

def extendedLead : List Char := "\"; filename*=UTF-8''".toList

def contentDispositionInline (filename : List Char) : List Char :=
  filenameLead ++ asciiFilenameFallback filename ++ extendedLead ++ percentEncodeRfc5987 filename

/-- `HeaderValue::from_str`: visible ASCII passes, a control character does not; a tab is left
open. -/
structure HeaderValue where
  fromStr : List Char → Bool
  visible : ∀ s, (∀ c ∈ s, 0x20 ≤ c.toNat ∧ c.toNat < 0x7F) → fromStr s = true
  control : ∀ s c, c ∈ s → isControl c = true → c ≠ '\t' → fromStr s = false

def dispositionHeader (value : HeaderValue) (filename : List Char) : List Char :=
  if value.fromStr (contentDispositionInline filename) then contentDispositionInline filename
  else "inline".toList

end Model

section Octets

theorem isAttrChar_of_unreserved {b : UInt8} (h : isUnreserved b = true) :
    isAttrChar (Char.ofNat b.toNat) = true := by
  simp only [isUnreserved, Bool.and_eq_true, Bool.or_eq_true, beq_iff_eq] at h
  obtain ⟨-, (((h | h) | h) | h) | h⟩ := h
  · rw [isAttrChar, h]
    rfl
  · rw [h]; decide
  · rw [h]; decide
  · rw [h]; decide
  · rw [h]; decide

theorem ofNat_toNat_of_unreserved {b : UInt8} (h : isUnreserved b = true) :
    UInt8.ofNat (Char.ofNat b.toNat).toNat = b := by
  simp only [isUnreserved, Bool.and_eq_true, decide_eq_true_eq] at h
  have hall : ∀ n < 0x80, (Char.ofNat n).toNat = n := by decide
  rw [hall _ h.1, UInt8.ofNat_toNat]

theorem hexValue_hexUpper {d : Nat} (h : d < 16) : hexValue (hexUpper d) = some d := by
  have hall : ∀ d < 16, hexValue (hexUpper d) = some d := by decide
  exact hall d h

/-- The encoding of a byte is read back. -/
theorem percentDecode_encodeByte (b : UInt8) (s : List Char) :
    percentDecode (percentEncodeByte b ++ s) = (percentDecode s).map (b :: ·) := by
  unfold percentEncodeByte
  split
  next h =>
    rw [List.singleton_append, percentDecode_attr (isAttrChar_of_unreserved h),
      ofNat_toNat_of_unreserved h]
  next h =>
    have hlt := b.toNat_lt
    have hhigh := hexValue_hexUpper (show b.toNat / 16 < 16 by omega)
    have hlow := hexValue_hexUpper (show b.toNat % 16 < 16 by omega)
    have hbyte : b.toNat / 16 * 16 + b.toNat % 16 = b.toNat := by omega
    rw [List.cons_append, List.cons_append, List.singleton_append,
      percentDecode_escape hhigh hlow, hbyte, UInt8.ofNat_toNat]

theorem percentDecode_encode (bytes : List UInt8) :
    percentDecode (bytes.flatMap percentEncodeByte) = some bytes := by
  induction bytes with
  | nil => rfl
  | cons b bytes ih => rw [List.flatMap_cons, percentDecode_encodeByte, ih, Option.map_some]

/-- What an encoded name is made of. -/
def isEncodedChar (c : Char) : Bool := c == '%' || isAttrChar c

theorem encodedChar_hexUpper {d : Nat} (h : d < 16) : isEncodedChar (hexUpper d) = true := by
  have hall : ∀ d < 16, isEncodedChar (hexUpper d) = true := by decide
  exact hall d h

theorem percentEncodeRfc5987_chars (value : List Char) :
    ∀ c ∈ percentEncodeRfc5987 value, isEncodedChar c = true := by
  intro c hc
  obtain ⟨b, -, hb⟩ := List.mem_flatMap.mp hc
  unfold percentEncodeByte at hb
  split at hb
  next h =>
    rw [List.mem_singleton.mp hb, isEncodedChar, isAttrChar_of_unreserved h, Bool.or_true]
  next =>
    have hlt := b.toNat_lt
    have hhigh := encodedChar_hexUpper (show b.toNat / 16 < 16 by omega)
    have hlow := encodedChar_hexUpper (show b.toNat % 16 < 16 by omega)
    simp only [List.mem_cons, List.not_mem_nil, or_false] at hb
    rcases hb with rfl | rfl | rfl
    · rfl
    · exact hhigh
    · exact hlow

end Octets

section Fallback

theorem isControl_eq_false {c : Char} :
    isControl c = false ↔ 0x20 ≤ c.toNat ∧ c.toNat ≠ 0x7F := by
  simp only [isControl, Bool.or_eq_false_iff, decide_eq_false_iff_not, beq_eq_false_iff_ne]
  omega

/-- The name holds nothing but ASCII blanks. -/
def AsciiBlank (filename : List Char) : Prop :=
  ∀ c ∈ filename, c.toNat < 0x80 ∧ isWhitespace c = true

theorem quotedChar_cases (c : Char) :
    (quotedChar c = c ∧ c.toNat < 0x80 ∧ c ≠ '"' ∧ c ≠ '\\') ∨
      (quotedChar c = '_' ∧ (0x80 ≤ c.toNat ∨ c = '"' ∨ c = '\\')) := by
  unfold quotedChar
  split
  next h =>
    simp only [Bool.and_eq_true, decide_eq_true_eq, bne_iff_ne] at h
    exact .inl ⟨rfl, h.1.1, h.1.2, h.2⟩
  next h =>
    simp only [Bool.and_eq_true, decide_eq_true_eq, bne_iff_ne, not_and_or, not_lt, not_not] at h
    exact .inr ⟨rfl, or_assoc.mp h⟩

theorem quotedChar_plain (c : Char) :
    (quotedChar c).toNat < 0x80 ∧ quotedChar c ≠ '"' ∧ quotedChar c ≠ '\\' := by
  rcases quotedChar_cases c with ⟨heq, hc⟩ | ⟨heq, -⟩
  · rw [heq]
    exact hc
  · rw [heq]
    decide

theorem quotedChar_control {c : Char} : isControl (quotedChar c) = isControl c := by
  rcases quotedChar_cases c with ⟨heq, -⟩ | ⟨heq, hc⟩
  · rw [heq]
  · rw [heq]
    refine (isControl_eq_false.mpr ?_).symm
    rcases hc with hc | rfl | rfl
    · omega
    · decide
    · decide

theorem quotedChar_blank {c : Char} :
    isWhitespace (quotedChar c) = true ↔ c.toNat < 0x80 ∧ isWhitespace c = true := by
  rcases quotedChar_cases c with ⟨heq, hc⟩ | ⟨heq, hc⟩
  · rw [heq]
    exact ⟨fun h => ⟨hc.1, h⟩, fun h => h.2⟩
  · rw [heq]
    refine iff_of_false (by decide) fun h => ?_
    rcases hc with hc | rfl | rfl
    · omega
    · exact absurd h.2 (by decide)
    · exact absurd h.2 (by decide)

theorem asciiBlank_iff (filename : List Char) :
    AsciiBlank filename ↔ Blank (filename.map quotedChar) := by
  simp only [AsciiBlank, Blank, List.forall_mem_map, quotedChar_blank]

/-- The quoted name: a stand-in for blanks, and else the characters that are not quoted. -/
theorem asciiFilenameFallback_cases (filename : List Char) :
    (AsciiBlank filename ∧ asciiFilenameFallback filename = "document".toList) ∨
      (¬AsciiBlank filename ∧ asciiFilenameFallback filename = filename.map quotedChar) := by
  have hempty : (trim (filename.map quotedChar)).isEmpty = true ↔ AsciiBlank filename := by
    rw [asciiBlank_iff, List.isEmpty_iff, trim_eq_nil_iff]
  by_cases h : AsciiBlank filename
  · exact .inl ⟨h, if_pos (hempty.mpr h)⟩
  · exact .inr ⟨h, if_neg (mt hempty.mp h)⟩

/-- The condition for a header without control characters. -/
def Printable (filename : List Char) : Prop :=
  (∀ c ∈ filename, isControl c = false) ∨ AsciiBlank filename

theorem asciiFilenameFallback_plain (filename : List Char) :
    ∀ c ∈ asciiFilenameFallback filename, c.toNat < 0x80 ∧ c ≠ '"' ∧ c ≠ '\\' := by
  rcases asciiFilenameFallback_cases filename with ⟨-, heq⟩ | ⟨-, heq⟩
  · rw [heq]
    simp
  · rw [heq]
    exact List.forall_mem_map.mpr fun c _ => quotedChar_plain c

theorem asciiFilenameFallback_control_iff (filename : List Char) :
    (∀ c ∈ asciiFilenameFallback filename, isControl c = false) ↔ Printable filename := by
  rcases asciiFilenameFallback_cases filename with ⟨hblank, heq⟩ | ⟨hsolid, heq⟩
  · rw [heq]
    exact iff_of_true (by simp [isControl]) (.inr hblank)
  · rw [heq, Printable, or_iff_left hsolid, List.forall_mem_map]
    simp only [quotedChar_control]

end Fallback

section Header

def utf8Charset : List Char := "UTF-8".toList

theorem toNat_of_isAlphanum {c : Char} (h : c.isAlphanum = true) :
    0x30 ≤ c.toNat ∧ c.toNat ≤ 0x39 ∨ 0x41 ≤ c.toNat ∧ c.toNat ≤ 0x5A ∨
      0x61 ≤ c.toNat ∧ c.toNat ≤ 0x7A := by
  have hle : ∀ {x y : UInt32}, x ≤ y → x.toNat ≤ y.toNat := UInt32.le_iff_toNat_le.mp
  rcases Bool.or_eq_true_iff.mp h with hletter | hdigit
  · rcases Bool.or_eq_true_iff.mp hletter with hupper | hlower
    · obtain ⟨hfirst, hlast⟩ : 'A'.val ≤ c.val ∧ c.val ≤ 'Z'.val := of_decide_eq_true hupper
      exact .inr (.inl ⟨hle hfirst, hle hlast⟩)
    · obtain ⟨hfirst, hlast⟩ := Bool.and_eq_true_iff.mp hlower
      exact .inr (.inr ⟨hle (of_decide_eq_true hfirst), hle (of_decide_eq_true hlast)⟩)
  · obtain ⟨hfirst, hlast⟩ := Bool.and_eq_true_iff.mp hdigit
    exact .inl ⟨hle (of_decide_eq_true hfirst), hle (of_decide_eq_true hlast)⟩

/-- An encoded name is visible, and ends neither the value nor one of its parts. -/
theorem encodedChar_range {c : Char} (h : isEncodedChar c = true) :
    0x20 < c.toNat ∧ c.toNat < 0x7F ∧ c.toNat ≠ 0x3B ∧ c.toNat ≠ 0x27 := by
  simp only [isEncodedChar, isAttrChar, Bool.or_eq_true, beq_iff_eq] at h
  rcases h with rfl | (h | h) | h
  · decide
  · have hrange := toNat_of_isAlphanum h
    omega
  · omega
  · have hall : (['!', '#', '$', '&', '+', '-', '.', '^', '_', '|', '~'].all fun c =>
        0x20 < c.toNat && c.toNat < 0x7F && c.toNat != 0x3B && c.toNat != 0x27) = true := by decide
    have hc := List.all_eq_true.mp hall c (List.contains_iff_mem.mp h)
    simpa [and_assoc] using hc

theorem filenameLead_range : ∀ c ∈ filenameLead, 0x20 ≤ c.toNat ∧ c.toNat < 0x7F := by
  have hall : (filenameLead.all fun c => 0x20 ≤ c.toNat && c.toNat < 0x7F) = true := by decide
  simpa using hall

theorem extendedLead_range : ∀ c ∈ extendedLead, 0x20 ≤ c.toNat ∧ c.toNat < 0x7F := by
  have hall : (extendedLead.all fun c => 0x20 ≤ c.toNat && c.toNat < 0x7F) = true := by decide
  simpa using hall

theorem contentDispositionInline_control_iff (filename : List Char) :
    (∀ c ∈ contentDispositionInline filename, isControl c = false) ↔ Printable filename := by
  rw [← asciiFilenameFallback_control_iff]
  refine ⟨fun h c hc => h c ?_, fun h c hc => ?_⟩
  · simp only [contentDispositionInline, List.mem_append]
    exact .inl (.inl (.inr hc))
  · simp only [contentDispositionInline, List.mem_append] at hc
    rcases hc with ((hc | hc) | hc) | hc
    · exact isControl_eq_false.mpr (by have hrange := filenameLead_range c hc; omega)
    · exact h c hc
    · exact isControl_eq_false.mpr (by have hrange := extendedLead_range c hc; omega)
    · have hrange := encodedChar_range (percentEncodeRfc5987_chars filename c hc)
      exact isControl_eq_false.mpr (by omega)

def apostrophe : Char := Char.ofNat 0x27

/-- The extended value is read back. -/
theorem extendedValue_utf8 (name filename : List Char) :
    extendedValue name (utf8Charset ++ apostrophe :: apostrophe :: percentEncodeRfc5987 filename) =
      some (.extended name utf8Charset [] (toUtf8 filename), []) := by
  have hchars : ∀ c ∈ percentEncodeRfc5987 filename,
      c ≠ apostrophe ∧ (c != ';' && !isBlank c) = true := by
    intro c hc
    have hrange := encodedChar_range (percentEncodeRfc5987_chars filename c hc)
    have hne : ∀ d : Char, c.toNat ≠ d.toNat → c ≠ d := fun d h heq => h (congrArg Char.toNat heq)
    have hsemicolon := hne ';' (by have : ';'.toNat = 0x3B := rfl; omega)
    have hspace := hne ' ' (by have : ' '.toNat = 0x20 := rfl; omega)
    have htab := hne '\t' (by have : '\t'.toNat = 0x09 := rfl; omega)
    refine ⟨hne apostrophe (by have : apostrophe.toNat = 0x27 := rfl; omega), ?_⟩
    simp [isBlank, hsemicolon, hspace, htab]
  have hwhole : ∀ c ∈ utf8Charset ++ apostrophe :: apostrophe :: percentEncodeRfc5987 filename,
      (c != ';' && !isBlank c) = true := by
    intro c hc
    rcases List.mem_append.mp hc with hc | hc
    · have hall : (utf8Charset.all fun c => c != ';' && !isBlank c) = true := by decide
      exact List.all_eq_true.mp hall c hc
    · simp only [List.mem_cons] at hc
      rcases hc with rfl | rfl | hc
      · decide
      · decide
      · exact (hchars c hc).2
  have hsplit : (utf8Charset ++ apostrophe :: apostrophe ::
      percentEncodeRfc5987 filename).splitOn apostrophe =
        [utf8Charset, [], percentEncodeRfc5987 filename] := by
    have hnot : apostrophe ∉ percentEncodeRfc5987 filename := fun hc => (hchars _ hc).1 rfl
    have hrest := List.splitOn_append_cons_self_of_not_mem List.not_mem_nil
      (percentEncodeRfc5987 filename) (a := apostrophe)
    rw [List.nil_append] at hrest
    rw [List.splitOn_append_cons_self_of_not_mem (by decide), hrest,
      List.splitOn_eq_singleton hnot]
  have hdecode : percentDecode (percentEncodeRfc5987 filename) = some (toUtf8 filename) :=
    percentDecode_encode _
  have hparts : (utf8Charset ++ apostrophe :: apostrophe ::
      percentEncodeRfc5987 filename).splitOn (Char.ofNat 0x27) =
        [utf8Charset, [], percentEncodeRfc5987 filename] := hsplit
  unfold extendedValue
  dsimp only
  rw [List.takeWhile_eq_self_iff.mpr hwhole, List.dropWhile_eq_nil_iff.mpr hwhole, hparts]
  dsimp only
  rw [hdecode]
  rfl

def inlineToken : List Char := "inline".toList

def filenameToken : List Char := "filename".toList

def extendedToken : List Char := "filename*".toList

theorem token_of_all {t : List Char} (h : (!t.isEmpty && t.all isTokenChar) = true) : Token t := by
  rw [Bool.and_eq_true, Bool.not_eq_true', List.isEmpty_eq_false_iff] at h
  exact ⟨h.1, List.all_eq_true.mp h.2⟩

/-- The header has the two names as its parameters. -/
theorem parse_contentDispositionInline {filename : List Char}
    (h : ∀ c ∈ asciiFilenameFallback filename, isControl c = false ∧ c ≠ '"' ∧ c ≠ '\\') :
    parse (contentDispositionInline filename) = some (inlineToken,
      [.plain filenameToken (asciiFilenameFallback filename),
        .extended extendedToken utf8Charset [] (toUtf8 filename)]) := by
  have hextended := parameter_extended (token_of_all (t := extendedToken) (by decide)) rfl
    (utf8Charset ++ apostrophe :: apostrophe :: percentEncodeRfc5987 filename)
  rw [extendedValue_utf8] at hextended
  have hquoted := parameter_quoted (token_of_all (t := filenameToken) (by decide)) (by decide) h
    (';' :: ' ' :: (extendedToken ++ '=' ::
      (utf8Charset ++ apostrophe :: apostrophe :: percentEncodeRfc5987 filename)))
  have hsplit : contentDispositionInline filename = inlineToken ++ ';' :: ' ' ::
      (filenameToken ++ '=' :: '"' :: (asciiFilenameFallback filename ++ '"' :: ';' :: ' ' ::
        (extendedToken ++ '=' ::
          (utf8Charset ++ apostrophe :: apostrophe :: percentEncodeRfc5987 filename)))) := by
    have hlead : filenameLead = inlineToken ++ ';' :: ' ' :: (filenameToken ++ ['=', '"']) := rfl
    have hmiddle : extendedLead = '"' :: ';' :: ' ' :: (extendedToken ++ '=' ::
        (utf8Charset ++ [apostrophe, apostrophe])) := rfl
    rw [contentDispositionInline, hlead, hmiddle]
    simp only [List.append_assoc, List.cons_append, List.nil_append]
  rw [hsplit, parse_token (token_of_all (by decide))]
  obtain ⟨fuel, hfuel⟩ : ∃ fuel, (contentDispositionInline filename).length = fuel + 2 := by
    refine ⟨(contentDispositionInline filename).length - 2, ?_⟩
    rw [hsplit]
    simp only [List.length_append, List.length_cons]
    omega
  rw [← hsplit, hfuel, parameters_cons (token_of_all (by decide)) hquoted,
    parameters_cons (token_of_all (by decide)) hextended, parameters_nil]
  rfl

/-- The header is a valid value without control characters, is sent, and its extended parameter
decodes to the name. -/
structure Faithful (value : HeaderValue) (filename : List Char) : Prop where
  plain : ∀ c ∈ contentDispositionInline filename, isControl c = false
  sent : dispositionHeader value filename = contentDispositionInline filename
  parsed : ∃ fallback octets, parse (dispositionHeader value filename) = some (inlineToken,
      [.plain filenameToken fallback, .extended extendedToken utf8Charset [] octets]) ∧
    fromUtf8 octets = .ok filename

theorem contentDispositionInline_ascii (filename : List Char) :
    ∀ c ∈ contentDispositionInline filename, c.toNat < 0x80 := by
  intro c hc
  simp only [contentDispositionInline, List.mem_append] at hc
  rcases hc with ((hc | hc) | hc) | hc
  · have hrange := filenameLead_range c hc
    omega
  · exact (asciiFilenameFallback_plain filename c hc).1
  · have hrange := extendedLead_range c hc
    omega
  · have hrange := encodedChar_range (percentEncodeRfc5987_chars filename c hc)
    omega

theorem faithful_iff (value : HeaderValue) (filename : List Char) :
    Faithful value filename ↔ Printable filename := by
  refine ⟨fun h => (contentDispositionInline_control_iff filename).mp h.plain, fun h => ?_⟩
  have hplain := (contentDispositionInline_control_iff filename).mpr h
  have hvisible : value.fromStr (contentDispositionInline filename) = true := by
    refine value.visible _ fun c hc => ?_
    have hcontrol := isControl_eq_false.mp (hplain c hc)
    have hascii := contentDispositionInline_ascii filename c hc
    omega
  have hsent : dispositionHeader value filename = contentDispositionInline filename :=
    if_pos hvisible
  have hfallback := (asciiFilenameFallback_control_iff filename).mpr h
  refine ⟨hplain, hsent, asciiFilenameFallback filename, toUtf8 filename, ?_, fromUtf8_toUtf8 _⟩
  rw [hsent]
  exact parse_contentDispositionInline fun c hc =>
    ⟨hfallback c hc, (asciiFilenameFallback_plain filename c hc).2⟩

/-- The download of an upload names its file exactly if the sanitized name holds no ASCII control
character, or nothing but ASCII blanks, for which the quoted name has a stand-in. -/
theorem sanitized_faithful_iff (value : HeaderValue) (name : List Char) :
    Faithful value (Upload.sanitizeFilename name) ↔ Printable (Upload.sanitizeFilename name) :=
  faithful_iff value _

/-- Every byte but a control character passes, and a tab does. -/
def byteHeaderValue : HeaderValue where
  fromStr := fun s => s.all fun c => !isControl c || c == '\t'
  visible := fun s h => List.all_eq_true.mpr fun c hc => by
    have hrange := h c hc
    rw [isControl_eq_false.mpr (by omega)]
    rfl
  control := fun s c hc hcontrol htab => by
    refine List.all_eq_false.mpr ⟨c, hc, ?_⟩
    simp [hcontrol, htab]

theorem sanitized_faithful_accented :
    Faithful byteHeaderValue (Upload.sanitizeFilename ['b', 'á', 'o', '"', '.', 'p', 'd', 'f']) := by
  refine (sanitized_faithful_iff byteHeaderValue _).mpr (.inl fun c hc => ?_)
  have hall : ((Upload.sanitizeFilename ['b', 'á', 'o', '"', '.', 'p', 'd', 'f']).all
      fun c => !isControl c) = true := by decide
  simpa using List.all_eq_true.mp hall c hc

/-- A name in two lines. -/
def twoLineName : List Char := ['a', '\n', 'b', '.', 'p', 'd', 'f']

theorem twoLineName_unfaithful :
    ¬∀ name : List Char, Faithful byteHeaderValue (Upload.sanitizeFilename name) := by
  intro h
  have hname : Upload.sanitizeFilename twoLineName = twoLineName := by decide
  have hsent := (h twoLineName).sent
  have hbare : dispositionHeader byteHeaderValue twoLineName = "inline".toList := by decide
  rw [hname, hbare] at hsent
  exact absurd hsent (by decide)

end Header

end GmragApi.Download
