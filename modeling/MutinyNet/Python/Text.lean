import MutinyNet.Python.Integer

namespace MutinyNet
namespace Python

open Codec

/-!
# Hexadecimal and decimal text

`bytes.hex` and `bytes.fromhex` carry raw data through JSON and command lines,
and `int(text, 16)` reads hashes and compact targets.  The three accept more
than they produce: `fromhex` skips blanks between bytes, and `int` takes a
sign, a `0x`, single underscores between digits, and the digits and blanks of
every script Unicode has.
-/

/-- The value of a hexadecimal digit, in either case. -/
def hexValue (digit : Char) : Option Nat :=
  if '0' ≤ digit ∧ digit ≤ '9' then some (digit.toNat - '0'.toNat)
  else if 'a' ≤ digit ∧ digit ≤ 'f' then some (digit.toNat - 'a'.toNat + 10)
  else if 'A' ≤ digit ∧ digit ≤ 'F' then some (digit.toNat - 'A'.toNat + 10)
  else none

/-- The lower case digit of a number below sixteen. -/
def hexDigit (value : Nat) : Char :=
  if value < 10 then Char.ofNat ('0'.toNat + value) else Char.ofNat ('a'.toNat + (value - 10))

theorem hexValue_hexDigit : forall {value : Nat}, value < 16 ->
    hexValue (hexDigit value) = some value := by
  decide

/-- The blanks `bytes.fromhex` skips and `int` strips. -/
def isBlank (char : Char) : Bool :=
  char == ' ' || char == '\t' || char == '\n' || char == '\r' ||
    char == Char.ofNat 11 || char == Char.ofNat 12

theorem isBlank_hexDigit : forall {value : Nat}, value < 16 ->
    isBlank (hexDigit value) = false := by
  decide

def byteHex (byte : UInt8) : List Char :=
  [hexDigit (byte.toNat / 16), hexDigit (byte.toNat % 16)]

/-- `bytes.hex`. -/
def toHex (bytes : Bytes) : String :=
  String.ofList (bytes.flatMap byteHex)

/-- `bytes.fromhex`, over the characters of its argument. -/
def fromHexChars : List Char -> Except PyError Bytes
  | [] => .ok []
  | [char] =>
      if isBlank char then .ok []
      else .error (.valueError "non-hexadecimal number found in fromhex() arg")
  | high :: low :: rest =>
      if isBlank high then fromHexChars (low :: rest)
      else match hexValue high, hexValue low with
        | some top, some bottom => do
            let bytes ← fromHexChars rest
            pure (UInt8.ofNat (16 * top + bottom) :: bytes)
        | _, _ => .error (.valueError "non-hexadecimal number found in fromhex() arg")

/-- `bytes.fromhex`. -/
def fromHex (text : String) : Except PyError Bytes :=
  fromHexChars text.toList

theorem fromHexChars_flatMap (bytes : Bytes) :
    fromHexChars (bytes.flatMap byteHex) = .ok bytes := by
  induction bytes with
  | nil => rfl
  | cons byte rest inductionHypothesis =>
      have bound := byte.toNat_lt
      have high : byte.toNat / 16 < 16 := by omega
      have low : byte.toNat % 16 < 16 := by omega
      have value : 16 * (byte.toNat / 16) + byte.toNat % 16 = byte.toNat := by omega
      rw [List.flatMap_cons, byteHex]
      simp only [List.cons_append, List.nil_append]
      rw [fromHexChars, if_neg (by rw [isBlank_hexDigit high]; decide), hexValue_hexDigit high,
        hexValue_hexDigit low]
      simp only [inductionHypothesis, value, UInt8.ofNat_toNat]
      rfl

@[simp] theorem fromHex_toHex (bytes : Bytes) : fromHex (toHex bytes) = .ok bytes := by
  rw [fromHex, toHex, String.toList_ofList, fromHexChars_flatMap]

/-! ## Reading integers -/

/-- The digits behind the first one, with single underscores between digits. -/
def hexTail (value : Nat) : List Char -> Option Nat
  | [] => some value
  | '_' :: digit :: rest =>
      match hexValue digit with
      | some next => hexTail (16 * value + next) rest
      | none => none
  | digit :: rest =>
      match hexValue digit with
      | some next => hexTail (16 * value + next) rest
      | none => none

def hexNumber : List Char -> Option Nat
  | [] => none
  | digit :: rest =>
      match hexValue digit with
      | some first => hexTail first rest
      | none => none

/-- The number behind an optional `0x`, which one underscore may follow. -/
def hexMagnitude : List Char -> Option Nat
  | '0' :: mark :: rest =>
      if mark = 'x' ∨ mark = 'X' then
        match rest with
        | '_' :: digits => hexNumber digits
        | digits => hexNumber digits
      else hexNumber ('0' :: mark :: rest)
  | digits => hexNumber digits

/-- Remove the blanks at both ends. -/
def stripBlanks (chars : List Char) : List Char :=
  ((chars.dropWhile isBlank).reverse.dropWhile isBlank).reverse

/-- The zeros of the Unicode decimal digits; each is followed by its one to nine. -/
def decimalZeros : List Nat :=
  [0x30, 0x660, 0x6f0, 0x7c0, 0x966, 0x9e6, 0xa66, 0xae6, 0xb66, 0xbe6, 0xc66, 0xce6, 0xd66, 0xde6,
    0xe50, 0xed0, 0xf20, 0x1040, 0x1090, 0x17e0, 0x1810, 0x1946, 0x19d0, 0x1a80, 0x1a90, 0x1b50,
    0x1bb0, 0x1c40, 0x1c50, 0xa620, 0xa8d0, 0xa900, 0xa9d0, 0xa9f0, 0xaa50, 0xabf0, 0xff10,
    0x104a0, 0x10d30, 0x11066, 0x110f0, 0x11136, 0x111d0, 0x112f0, 0x11450, 0x114d0, 0x11650,
    0x116c0, 0x11730, 0x118e0, 0x11950, 0x11c50, 0x11d50, 0x11da0, 0x11f50, 0x16a60, 0x16ac0,
    0x16b50, 0x1d7ce, 0x1d7d8, 0x1d7e2, 0x1d7ec, 0x1d7f6, 0x1e140, 0x1e2f0, 0x1e4f0, 0x1e950,
    0x1fbf0]

/-- The value of a decimal digit of any script. -/
def decimalValue (char : Char) : Option Nat :=
  (decimalZeros.find? fun first => first ≤ char.toNat ∧ char.toNat < first + 10).map
    fun first => char.toNat - first

/-- `\d` of a regular expression over text. -/
def isDecimal (char : Char) : Bool :=
  (decimalValue char).isSome

/-- The blanks of Unicode above the ASCII range. -/
def isWideBlank (char : Char) : Bool :=
  char.toNat ∈ [0x85, 0xa0, 0x1680, 0x2028, 0x2029, 0x202f, 0x205f, 0x3000] ||
    (0x2000 ≤ char.toNat && char.toNat ≤ 0x200a)

/-- What `int` makes of a character before it parses a number. -/
def asciiChar (char : Char) : Char :=
  if char.toNat < 127 then char
  else if isWideBlank char then ' '
  else match decimalValue char with
    | some value => Char.ofNat (0x30 + value)
    | none => '?'

/-- The digits `int` converts in base ten before it refuses. -/
def maxStrDigits : Nat := 4300

/-- `int(text)` of a string of decimal digits. -/
def intFromDecimals (digits : List Char) : Except PyError Int :=
  if maxStrDigits < digits.length then
    .error (.valueError "Exceeds the limit (4300 digits) for integer string conversion")
  else .ok (digits.foldl (fun value digit => 10 * value + (decimalValue digit).getD 0) 0 : Nat)

/-- `int(text, 16)`. -/
def intFromHex (text : String) : Except PyError Int :=
  let number : Option Int :=
    match stripBlanks (text.toList.map asciiChar) with
    | '-' :: rest => (hexMagnitude rest).map fun magnitude => -(magnitude : Int)
    | '+' :: rest => (hexMagnitude rest).map fun magnitude => (magnitude : Int)
    | rest => (hexMagnitude rest).map fun magnitude => (magnitude : Int)
  match number with
  | some value => .ok value
  | none => .error (.valueError "invalid literal for int() with base 16")

def isHexDigit (char : Char) : Bool :=
  (hexValue char).isSome

/-- Hexadecimal digits are plain characters: not blanks, signs, marks or
underscores. -/
theorem plain_of_isHexDigit {char : Char} (digit : isHexDigit char = true) :
    asciiChar char = char ∧ isBlank char = false ∧ char ≠ '-' ∧ char ≠ '+' ∧ char ≠ 'x' ∧
      char ≠ 'X' ∧ char ≠ '_' := by
  have ranges : char.toNat ∈ List.range' 48 10 ++ List.range' 97 6 ++ List.range' 65 6 := by
    unfold isHexDigit hexValue at digit
    simp only [Char.le_def, UInt32.le_iff_toNat_le] at digit
    change (if 48 ≤ char.toNat ∧ char.toNat ≤ 57 then _ else if 97 ≤ char.toNat ∧ char.toNat ≤ 102
      then _ else if 65 ≤ char.toNat ∧ char.toNat ≤ 70 then _ else _ : Option Nat).isSome = true
      at digit
    simp only [List.mem_append, List.mem_range'_1]
    split at digit
    · omega
    · split at digit
      · omega
      · split at digit
        · omega
        · cases digit
  have same : char = Char.ofNat char.toNat := (Char.ofNat_toNat char).symm
  have all : forall value, value ∈ List.range' 48 10 ++ List.range' 97 6 ++ List.range' 65 6 ->
      asciiChar (Char.ofNat value) = Char.ofNat value ∧ isBlank (Char.ofNat value) = false ∧
        Char.ofNat value ≠ '-' ∧ Char.ofNat value ≠ '+' ∧ Char.ofNat value ≠ 'x' ∧
        Char.ofNat value ≠ 'X' ∧ Char.ofNat value ≠ '_' := by
    decide
  rw [same]
  exact all char.toNat ranges

theorem hexTail_of_digits {digits : List Char} (value : Nat)
    (plain : forall char, char ∈ digits -> isHexDigit char = true) :
    Exists fun result => hexTail value digits = some result := by
  induction digits generalizing value with
  | nil => exact ⟨value, rfl⟩
  | cons char rest inductionHypothesis =>
      have digit := plain char List.mem_cons_self
      rcases Option.isSome_iff_exists.mp digit with ⟨next, found⟩
      have notUnderscore := (plain_of_isHexDigit digit).2.2.2.2.2.2
      rcases inductionHypothesis (16 * value + next)
        (fun other member => plain other (List.mem_cons_of_mem char member)) with ⟨result, later⟩
      refine ⟨result, ?_⟩
      rw [hexTail.eq_3 value char rest (fun _ _ same _ => notUnderscore same), found]
      exact later

theorem hexNumber_of_digits {digits : List Char} (nonempty : digits ≠ [])
    (plain : forall char, char ∈ digits -> isHexDigit char = true) :
    Exists fun result => hexNumber digits = some result := by
  cases digits with
  | nil => exact absurd rfl nonempty
  | cons char rest =>
      rcases Option.isSome_iff_exists.mp (plain char List.mem_cons_self) with ⟨first, found⟩
      rw [hexNumber, found]
      exact hexTail_of_digits first fun other member =>
        plain other (List.mem_cons_of_mem char member)

/-- Digits have no `0x` in front. -/
theorem hexMagnitude_eq_hexNumber {digits : List Char}
    (plain : forall char, char ∈ digits -> isHexDigit char = true) :
    hexMagnitude digits = hexNumber digits := by
  unfold hexMagnitude
  split
  · next mark rest =>
      have digit := plain mark (List.mem_cons_of_mem _ List.mem_cons_self)
      have facts := plain_of_isHexDigit digit
      rw [if_neg (by rintro (same | same); exacts [facts.2.2.2.2.1 same, facts.2.2.2.2.2.1 same])]
  · rfl

theorem stripBlanks_of_plain {chars : List Char}
    (plain : forall char, char ∈ chars -> isBlank char = false) : stripBlanks chars = chars := by
  have kept : forall {chars : List Char}, (forall char, char ∈ chars -> isBlank char = false) ->
      chars.dropWhile isBlank = chars := by
    intro chars plain
    cases chars with
    | nil => rfl
    | cons char rest => rw [List.dropWhile_cons, plain char List.mem_cons_self, if_neg (by decide)]
  rw [stripBlanks, kept plain, kept fun char member => plain char (List.mem_reverse.mp member),
    List.reverse_reverse]

/-- A number without a sign is its magnitude. -/
theorem intFromHex_of_hexMagnitude {text : String} {first : Char} {rest : List Char} {value : Nat}
    (minus : first ≠ '-') (plus : first ≠ '+') (found : hexMagnitude (first :: rest) = some value)
    (shape : stripBlanks (text.toList.map asciiChar) = first :: rest) :
    intFromHex text = .ok value := by
  have unsigned : (match first :: rest with
      | '-' :: rest => (hexMagnitude rest).map fun magnitude => -(magnitude : Int)
      | '+' :: rest => (hexMagnitude rest).map fun magnitude => (magnitude : Int)
      | rest => (hexMagnitude rest).map fun magnitude => (magnitude : Int)) =
        some (value : Int) := by
    split
    · next same => exact absurd (List.cons.inj same).1 minus
    · next same => exact absurd (List.cons.inj same).1 plus
    · rw [found]
      rfl
  rw [intFromHex, shape]
  simp only [unsigned]

/-- Digits are read as they stand: nothing is stripped and there is no sign. -/
theorem intFromHex_of_hexNumber {text : String} {value : Nat} (nonempty : text.toList ≠ [])
    (plain : forall char, char ∈ text.toList -> isHexDigit char = true)
    (found : hexNumber text.toList = some value) : intFromHex text = .ok value := by
  rw [← hexMagnitude_eq_hexNumber plain] at found
  have ascii : text.toList.map asciiChar = text.toList := by
    conv_rhs => rw [← List.map_id text.toList]
    exact List.map_congr_left fun char member => (plain_of_isHexDigit (plain char member)).1
  have stripped := stripBlanks_of_plain fun char member =>
    (plain_of_isHexDigit (plain char member)).2.1
  cases shape : text.toList with
  | nil => exact absurd shape nonempty
  | cons char rest =>
      have facts := plain_of_isHexDigit (plain char (shape ▸ List.mem_cons_self))
      rw [shape] at found
      apply intFromHex_of_hexMagnitude facts.2.2.1 facts.2.2.2.1 found
      rw [ascii, stripped, shape]

theorem hexValue_lt {char : Char} {digit : Nat} (found : hexValue char = some digit) :
    digit < 16 := by
  unfold hexValue at found
  simp only [Char.le_def, UInt32.le_iff_toNat_le] at found
  split_ifs at found with low middle high
  · cases found
    have upper : char.toNat ≤ 57 := low.2
    change char.toNat - 48 < 16
    omega
  · cases found
    have upper : char.toNat ≤ 102 := middle.2
    change char.toNat - 97 + 10 < 16
    omega
  · cases found
    have upper : char.toNat ≤ 70 := high.2
    change char.toNat - 65 + 10 < 16
    omega

/-- Every digit behind a number multiplies it by sixteen. -/
theorem hexTail_lt {digits : List Char} {value result : Nat}
    (plain : forall char, char ∈ digits -> isHexDigit char = true)
    (parsed : hexTail value digits = some result) : result < (value + 1) * 16 ^ digits.length := by
  induction digits generalizing value with
  | nil =>
      cases parsed
      rw [List.length_nil, pow_zero, mul_one]
      exact Nat.lt_succ_self _
  | cons char rest inductionHypothesis =>
      have digit := plain char List.mem_cons_self
      have notUnderscore := (plain_of_isHexDigit digit).2.2.2.2.2.2
      rcases Option.isSome_iff_exists.mp digit with ⟨next, found⟩
      rw [hexTail.eq_3 value char rest (fun _ _ same _ => notUnderscore same), found] at parsed
      have later := inductionHypothesis
        (fun other member => plain other (List.mem_cons_of_mem char member)) parsed
      refine lt_of_lt_of_le later ?_
      rw [List.length_cons, pow_succ', ← mul_assoc]
      have small := hexValue_lt found
      exact Nat.mul_le_mul_right _ (by omega)

/-- A string of hexadecimal digits is a number that they have room for. -/
theorem intFromHex_of_digits {text : String} (nonempty : text.toList ≠ [])
    (plain : forall char, char ∈ text.toList -> isHexDigit char = true) :
    Exists fun value : Nat => intFromHex text = .ok value ∧ value < 16 ^ text.toList.length := by
  rcases hexNumber_of_digits nonempty plain with ⟨value, found⟩
  refine ⟨value, intFromHex_of_hexNumber nonempty plain found, ?_⟩
  cases shape : text.toList with
  | nil => exact absurd shape nonempty
  | cons char rest =>
      rw [shape] at found plain
      rcases Option.isSome_iff_exists.mp (plain char List.mem_cons_self) with ⟨first, digit⟩
      rw [hexNumber, digit] at found
      have bound := hexTail_lt
        (fun other member => plain other (List.mem_cons_of_mem char member)) found
      refine lt_of_lt_of_le bound ?_
      rw [List.length_cons, pow_succ']
      have small := hexValue_lt digit
      exact Nat.mul_le_mul_right _ (by omega)

/-- The slice `text[-first:-last]` of a string. -/
def sliceFromEnd (text : String) (first last : Nat) : String :=
  let chars := text.toList
  String.ofList ((chars.drop (chars.length - first)).take
    ((chars.length - last) - (chars.length - first)))

/-! ## Command line arguments -/

/-- A character of a command line argument.  A byte that is not part of a UTF-8
text is kept as a lone surrogate. -/
inductive ArgChar where
  | char (value : Char)
  | surrogate (byte : UInt8)
  deriving DecidableEq, Repr

/-- A command line argument, as the interpreter decodes it. -/
abbrev ArgText := List ArgChar

/-- `str.encode('utf8')`, which has no bytes for a lone surrogate. -/
def encodeUtf8 : ArgText -> Except PyError Bytes
  | [] => .ok []
  | .surrogate _ :: _ => .error .unicodeEncodeError
  | .char value :: rest => do
      let bytes ← encodeUtf8 rest
      pure (String.utf8EncodeChar value ++ bytes)

theorem encodeUtf8_isOk_iff {text : ArgText} :
    (Exists fun bytes => encodeUtf8 text = .ok bytes) <-> forall byte, .surrogate byte ∉ text := by
  induction text with
  | nil => exact ⟨fun _ byte => List.not_mem_nil, fun _ => ⟨[], rfl⟩⟩
  | cons first rest inductionHypothesis =>
      cases first with
      | surrogate byte =>
          constructor
          · rintro ⟨bytes, impossible⟩
            cases impossible
          · exact fun plain => absurd List.mem_cons_self (plain byte)
      | char value =>
          constructor
          · rintro ⟨bytes, run⟩ byte member
            rcases bind_eq_ok.mp run with ⟨behind, encoded, -⟩
            rcases List.mem_cons.mp member with impossible | later
            · cases impossible
            · exact inductionHypothesis.mp ⟨behind, encoded⟩ byte later
          · intro plain
            rcases inductionHypothesis.mpr fun byte later =>
              plain byte (List.mem_cons_of_mem _ later) with ⟨behind, encoded⟩
            exact ⟨_, bind_eq_ok.mpr ⟨behind, encoded, rfl⟩⟩

end Python
end MutinyNet
