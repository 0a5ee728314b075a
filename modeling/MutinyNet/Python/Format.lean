import MutinyNet.Codec.Positional
import MutinyNet.Python.Text

namespace MutinyNet
namespace Python

open Codec

/-!
# Formatted integers

`"{0:x}"` and `"%02x"` write an integer in hexadecimal.  The miner cuts and
pads such texts and reads them back, so their digits are related to values here.
-/

/-- The hexadecimal digits of a natural number. -/
def hexDigits (value : Nat) : List Nat :=
  if value = 0 then [0] else bigEndian 16 value

/-- `"{0:x}".format(value)`. -/
def formatHex (value : Int) : List Char :=
  if value < 0 then '-' :: (hexDigits value.natAbs).map hexDigit
  else (hexDigits value.natAbs).map hexDigit

/-- `"%0<width>x" % value`; the zeros stand behind a sign. -/
def formatHexPadded (width : Nat) (value : Int) : List Char :=
  let digits := (hexDigits value.natAbs).map hexDigit
  if value < 0 then '-' :: (List.replicate (width - 1 - digits.length) '0' ++ digits)
  else List.replicate (width - digits.length) '0' ++ digits

/-- `int(text, 16)` of a text given by its characters. -/
def intFromHexChars (chars : List Char) : Except PyError Int :=
  intFromHex (String.ofList chars)

@[simp] theorem ofBigEndian_hexDigits (value : Nat) : ofBigEndian 16 (hexDigits value) = value := by
  unfold hexDigits
  split
  · next same =>
      rw [same]
      rfl
  · exact ofBigEndian_bigEndian 16 value

theorem hexDigits_lt {value digit : Nat} (member : digit ∈ hexDigits value) : digit < 16 := by
  unfold hexDigits at member
  split at member
  · rw [List.mem_singleton.mp member]
    decide
  · exact bigEndian_lt (by decide) member

theorem hexDigits_ne_nil (value : Nat) : hexDigits value ≠ [] := by
  unfold hexDigits
  split
  · exact List.cons_ne_nil 0 []
  · next nonzero => exact bigEndian_ne_nil nonzero

/-- A number with more than one digit is at least the power of its first one. -/
theorem pow_length_hexDigits_le {value : Nat} (long : 1 < (hexDigits value).length) :
    16 ^ (hexDigits value).length ≤ 16 * value := by
  unfold hexDigits at long ⊢
  split
  · next same =>
      rw [if_pos same] at long
      exact absurd long (by decide)
  · next nonzero => exact pow_length_bigEndian_le (by decide) nonzero

theorem isHexDigit_hexDigit {digit : Nat} (small : digit < 16) :
    isHexDigit (hexDigit digit) = true := by
  rw [isHexDigit, hexValue_hexDigit small]
  rfl

theorem hexTail_hexDigit (digits : List Nat) (value : Nat)
    (small : forall digit, digit ∈ digits -> digit < 16) :
    hexTail value (digits.map hexDigit) =
      some (digits.foldl (fun value digit => 16 * value + digit) value) := by
  induction digits generalizing value with
  | nil => rfl
  | cons digit rest inductionHypothesis =>
      have head := small digit List.mem_cons_self
      have notUnderscore := (plain_of_isHexDigit (isHexDigit_hexDigit head)).2.2.2.2.2.2
      rw [List.map_cons, hexTail.eq_3 value _ _ (fun _ _ same _ => notUnderscore same),
        hexValue_hexDigit head]
      exact inductionHypothesis _ fun other member => small other (List.mem_cons_of_mem digit member)

theorem hexNumber_digits {digits : List Nat} (nonempty : digits ≠ [])
    (small : forall digit, digit ∈ digits -> digit < 16) :
    hexNumber (digits.map hexDigit) = some (ofBigEndian 16 digits) := by
  cases digits with
  | nil => exact absurd rfl nonempty
  | cons digit rest =>
      rw [List.map_cons, hexNumber, hexValue_hexDigit (small digit List.mem_cons_self)]
      dsimp only
      rw [hexTail_hexDigit rest digit fun other member =>
        small other (List.mem_cons_of_mem digit member)]
      simp [ofBigEndian]

theorem isHexDigit_of_mem_map {digits : List Nat} (small : forall digit, digit ∈ digits -> digit < 16)
    {char : Char} (member : char ∈ digits.map hexDigit) : isHexDigit char = true := by
  rcases List.mem_map.mp member with ⟨digit, inside, same⟩
  rw [← same]
  exact isHexDigit_hexDigit (small digit inside)

/-- `int(text, 16)` of a text of digits is their value. -/
theorem intFromHexChars_digits {digits : List Nat} (nonempty : digits ≠ [])
    (small : forall digit, digit ∈ digits -> digit < 16) :
    intFromHexChars (digits.map hexDigit) = .ok (ofBigEndian 16 digits : Nat) := by
  unfold intFromHexChars
  apply intFromHex_of_hexNumber
  · rw [String.toList_ofList]
    exact fun empty => nonempty (List.map_eq_nil_iff.mp empty)
  · rw [String.toList_ofList]
    exact fun char member => isHexDigit_of_mem_map small member
  · rw [String.toList_ofList]
    exact hexNumber_digits nonempty small

/-! ## Padded and marked numbers -/

/-- The digits of a padded number. -/
def paddedDigits (width value : Nat) : List Nat :=
  List.replicate (width - (hexDigits value).length) 0 ++ hexDigits value

theorem formatHexPadded_natCast (width value : Nat) :
    formatHexPadded width value = (paddedDigits width value).map hexDigit := by
  unfold formatHexPadded paddedDigits
  dsimp only
  rw [if_neg (by omega), Int.natAbs_natCast, List.length_map, List.map_append, List.map_replicate]
  rfl

@[simp] theorem ofBigEndian_paddedDigits (width value : Nat) :
    ofBigEndian 16 (paddedDigits width value) = value := by
  rw [paddedDigits, ofBigEndian_append, ofBigEndian_zeros, zero_mul, zero_add,
    ofBigEndian_hexDigits]

theorem paddedDigits_lt {width value digit : Nat} (member : digit ∈ paddedDigits width value) :
    digit < 16 := by
  rcases List.mem_append.mp member with front | back
  · rw [List.eq_of_mem_replicate front]
    decide
  · exact hexDigits_lt back

theorem paddedDigits_ne_nil (width value : Nat) : paddedDigits width value ≠ [] :=
  fun empty => hexDigits_ne_nil value (List.append_eq_nil_iff.mp empty).2

theorem isHexDigit_of_mem_formatHexPadded {width value : Nat} {char : Char}
    (member : char ∈ formatHexPadded width value) : isHexDigit char = true := by
  rw [formatHexPadded_natCast] at member
  exact isHexDigit_of_mem_map (fun _ => paddedDigits_lt) member

/-- `int("0x" + text, 16)` of a text of digits is their value too. -/
theorem intFromHexChars_marked {digits : List Nat} (nonempty : digits ≠ [])
    (small : forall digit, digit ∈ digits -> digit < 16) :
    intFromHexChars ('0' :: 'x' :: digits.map hexDigit) = .ok (ofBigEndian 16 digits : Nat) := by
  have plain : forall char, char ∈ digits.map hexDigit -> isHexDigit char = true :=
    fun char => isHexDigit_of_mem_map small
  have kept : forall char, char ∈ '0' :: 'x' :: digits.map hexDigit ->
      asciiChar char = char ∧ isBlank char = false := by
    intro char member
    rcases List.mem_cons.mp member with same | behind
    · subst same
      decide
    · rcases List.mem_cons.mp behind with same | inside
      · subst same
        decide
      · have facts := plain_of_isHexDigit (plain char inside)
        exact ⟨facts.1, facts.2.1⟩
  have ascii : ('0' :: 'x' :: digits.map hexDigit).map asciiChar =
      '0' :: 'x' :: digits.map hexDigit := by
    conv_rhs => rw [← List.map_id ('0' :: 'x' :: digits.map hexDigit)]
    exact List.map_congr_left fun char member => (kept char member).1
  have stripped := stripBlanks_of_plain fun char member => (kept char member).2
  have magnitude : hexMagnitude ('0' :: 'x' :: digits.map hexDigit) =
      some (ofBigEndian 16 digits) := by
    rw [← hexNumber_digits nonempty small, hexMagnitude, if_pos (Or.inl rfl)]
    -- The number does not start with an underscore.
    intro rest shape
    have first : isHexDigit '_' = true := plain '_' (by rw [shape]; exact List.mem_cons_self)
    exact absurd first (by decide)
  unfold intFromHexChars
  apply intFromHex_of_hexMagnitude (by decide) (by decide) magnitude
  rw [String.toList_ofList, ascii, stripped]

end Python
end MutinyNet
