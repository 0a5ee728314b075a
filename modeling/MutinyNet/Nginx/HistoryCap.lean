import MutinyNet.Codec.Positional

namespace MutinyNet
namespace Nginx
namespace HistoryCap

open Codec

/-!
# The cap on the address history

Electrs does not bound `max_txs` on every route, so nginx refuses requests whose
`$arg_max_txs` has four digits or more.  That variable is the text of the first
`max_txs` in the query as it was sent.  Electrs decodes the query first, and may
read another occurrence.  What it reads is what nginx judges only where the
argument is sent as it is, and first.
-/

/-- An argument of a query as it was sent. -/
structure Argument where
  name : List Char
  value : Option (List Char)
  deriving DecidableEq, Repr

/-- A piece of a query, split at its first equals sign. -/
def argument (piece : List Char) : Argument :=
  if '=' ∈ piece then
    { name := piece.takeWhile (· ≠ '='), value := some (piece.dropWhile (· ≠ '=')).tail }
  else { name := piece, value := none }

def arguments (query : List Char) : List Argument :=
  (query.splitOn '&').map argument

def maxTxs : List Char :=
  "max_txs".toList

/-! ## nginx -/

/-- The value of a `max_txs` as nginx finds it. -/
def sent (argument : Argument) : Option (List Char) :=
  if argument.name = maxTxs then argument.value else none

/-- `$arg_max_txs`. -/
def argMaxTxs (query : List Char) : List Char :=
  ((arguments query).filterMap sent).headD []

/-- `[+]?`. -/
def withoutPlus : List Char -> List Char
  | '+' :: text => text
  | text => text

/-- `^[+]?[0-9]{4,}$`. -/
def fourDigits (text : List Char) : Bool :=
  decide (4 ≤ (withoutPlus text).length) && (withoutPlus text).all Char.isDigit

inductive Answer where
  | badRequest
  | forwarded (path query : List Char)
  deriving DecidableEq, Repr

/-- A location with the cap, by what it makes of the path. -/
def capped (upstreamPath : List Char -> List Char) (path query : List Char) : Answer :=
  if fourDigits (argMaxTxs query) then .badRequest else .forwarded (upstreamPath path) query

/-- `location ~ ^/api/(address|scripthash)/[^/]+/txs`, with `rewrite ^/api/(.*)$ /$1`. -/
def historyLocation (path query : List Char) : Answer :=
  capped (fun path => '/' :: path.drop "/api/".length) path query

/-- `location /api/`, with `proxy_pass http://127.0.0.1:3003/`. -/
def apiLocation (path query : List Char) : Answer :=
  capped (fun path => "/".toList ++ path.drop "/api/".length) path query

/-! ## The upstream -/

def hexValue (letter : Char) : Option Nat :=
  if '0' ≤ letter ∧ letter ≤ '9' then some (letter.toNat - '0'.toNat)
  else if 'a' ≤ letter ∧ letter ≤ 'f' then some (letter.toNat - 'a'.toNat + 10)
  else if 'A' ≤ letter ∧ letter ≤ 'F' then some (letter.toNat - 'A'.toNat + 10)
  else none

/-- A percent sign in front of two hexadecimal digits stands for the byte they
write. -/
def percentDecode : List Char -> List Char
  | [] => []
  | [last] => [last]
  | [first, last] => [first, last]
  | letter :: high :: low :: behind =>
      if letter = '%' then
        match hexValue high, hexValue low with
        | some first, some second => Char.ofNat (16 * first + second) :: percentDecode behind
        | _, _ => letter :: percentDecode (high :: low :: behind)
      else letter :: percentDecode (high :: low :: behind)

/-- A decimal number with an optional plus. -/
def decimal (text : List Char) : Option Nat :=
  if withoutPlus text ≠ [] ∧ (withoutPlus text).all Char.isDigit then
    some (ofBigEndian 10 ((withoutPlus text).map fun digit => digit.toNat - '0'.toNat))
  else none

/-- What the upstream reads of an argument as `max_txs`. -/
def reading (argument : Argument) : Option Nat :=
  if percentDecode argument.name = maxTxs then decimal (percentDecode (argument.value.getD []))
  else none

/-! ## Where they agree -/

theorem percentDecode_of_plain {text : List Char} (plain : '%' ∉ text) :
    percentDecode text = text := by
  induction text with
  | nil => rfl
  | cons letter rest inductionHypothesis =>
      have here : letter ≠ '%' := fun same => plain (same ▸ List.mem_cons_self)
      have later := inductionHypothesis fun member => plain (List.mem_cons_of_mem letter member)
      cases rest with
      | nil => rfl
      | cons high rest =>
          cases rest with
          | nil => rfl
          | cons low behind => rw [percentDecode, if_neg here, later]

theorem digit_lt {digit : Char} (isDigit : digit.isDigit = true) :
    digit.toNat - '0'.toNat < 10 := by
  rw [Char.isDigit, Bool.and_eq_true, decide_eq_true_iff, decide_eq_true_iff] at isDigit
  have atMost : digit.toNat ≤ '9'.toNat := isDigit.2
  have last : '9'.toNat = 57 := rfl
  have start : '0'.toNat = 48 := rfl
  omega

/-- Large numbers have four digits. -/
theorem fourDigits_of_decimal {text : List Char} {value : Nat} (read : decimal text = some value)
    (large : 1000 ≤ value) : fourDigits text = true := by
  rw [decimal] at read
  split at read
  · next number =>
      have bound : value < 10 ^ (withoutPlus text).length := by
        rw [← Option.some.inj read, ← List.length_map fun digit : Char => digit.toNat - '0'.toNat]
        apply ofBigEndian_lt
        intro digit member
        rcases List.mem_map.mp member with ⟨letter, inside, same⟩
        rw [← same]
        exact digit_lt (List.all_eq_true.mp number.2 letter inside)
      have long : 4 ≤ (withoutPlus text).length := by
        by_contra short
        have power : 10 ^ (withoutPlus text).length ≤ 10 ^ 3 :=
          Nat.pow_le_pow_right (by decide) (by omega)
        omega
      rw [fourDigits, decide_eq_true long, number.2]
      rfl
  · cases read

/-- An argument that is too large for the cap, and not the text nginx looks at: it
is encoded, or another `max_txs` was sent in front of it. -/
def Hidden (query : List Char) : Prop :=
  Exists fun front => Exists fun argument => Exists fun back =>
    arguments query = front ++ argument :: back ∧
      (Exists fun value => reading argument = some value ∧ 1000 ≤ value) ∧
      ('%' ∈ argument.name ∨ '%' ∈ argument.value.getD [] ∨
        Exists fun earlier => earlier ∈ front ∧ (sent earlier).isSome = true)

/-- An argument sent as it is and first is the one nginx looks at. -/
theorem fourDigits_of_plain {query : List Char} {front back : List Argument} {argument : Argument}
    {value : Nat} (split_query : arguments query = front ++ argument :: back)
    (read : reading argument = some value) (large : 1000 ≤ value)
    (plainName : '%' ∉ argument.name) (plainValue : '%' ∉ argument.value.getD [])
    (first : forall earlier, earlier ∈ front -> sent earlier = none) :
    fourDigits (argMaxTxs query) = true := by
  rw [reading, percentDecode_of_plain plainName, percentDecode_of_plain plainValue] at read
  split at read
  · next name =>
      cases text : argument.value with
      | none =>
          rw [text] at read
          cases read
      | some written =>
          rw [text] at read
          have here : sent argument = some written := by
            rw [sent, if_pos name, text]
          have none_before : front.filterMap sent = [] :=
            List.filterMap_eq_nil_iff.mpr first
          rw [argMaxTxs, split_query, List.filterMap_append, none_before, List.filterMap_cons, here]
          exact fourDigits_of_decimal read large
  · cases read

/-- The upstream may read a number of four digits. -/
def ReadsLarge (query : List Char) : Prop :=
  Exists fun argument => argument ∈ arguments query ∧
    Exists fun value => reading argument = some value ∧ 1000 ≤ value

theorem capped_iff (upstreamPath : List Char -> List Char) (path query : List Char) :
    (ReadsLarge query -> capped upstreamPath path query = .badRequest) <->
      Not (Hidden query) ∨ fourDigits (argMaxTxs query) = true := by
  constructor
  · intro refuses
    rw [or_iff_not_imp_left, not_not]
    rintro ⟨front, argument, back, split_query, large, -⟩
    have member : argument ∈ arguments query := by
      rw [split_query]
      exact List.mem_append_right _ List.mem_cons_self
    have refused := refuses ⟨argument, member, large⟩
    rw [capped] at refused
    split at refused
    · next digits => exact digits
    · cases refused
  · rintro (visible | digits) ⟨argument, member, value, read, large⟩
    · rcases List.append_of_mem member with ⟨front, back, split_query⟩
      have shown : Not ('%' ∈ argument.name ∨ '%' ∈ argument.value.getD [] ∨
          Exists fun earlier => earlier ∈ front ∧ (sent earlier).isSome = true) :=
        fun reason => visible ⟨front, argument, back, split_query, ⟨value, read, large⟩, reason⟩
      rw [not_or, not_or] at shown
      rw [capped, fourDigits_of_plain split_query read large shown.1 shown.2.1]
      · rfl
      · intro earlier before
        rw [← Option.not_isSome_iff_eq_none]
        exact fun isSent => shown.2.2 ⟨earlier, before, isSent⟩
    · rw [capped, if_pos digits]

/-- The locations refuse whatever the upstream would read as too large if and only if
no such argument is hidden, or the first `max_txs` has four digits itself. -/
theorem locations_refuse_iff (path query : List Char) :
    (ReadsLarge query ->
        historyLocation path query = .badRequest ∧ apiLocation path query = .badRequest) <->
      Not (Hidden query) ∨ fourDigits (argMaxTxs query) = true := by
  rw [imp_and, historyLocation, apiLocation, capped_iff, capped_iff, and_self]

/-- A digit that is sent encoded is enough. -/
theorem encoded_digit_forwarded :
    Not (forall path query, ReadsLarge query ->
      historyLocation path query = .badRequest ∧ apiLocation path query = .badRequest) := by
  intro claimed
  have large : ReadsLarge "max_txs=%31000".toList :=
    ⟨{ name := maxTxs, value := some "%31000".toList }, by decide, 1000, by decide, le_rfl⟩
  exact absurd (claimed "/api/address/tb1q/txs".toList _ large).1 (by decide)

example : historyLocation "/api/address/tb1q/txs".toList "max_txs=5&max_txs=5000".toList =
    .forwarded "/address/tb1q/txs".toList "max_txs=5&max_txs=5000".toList := by
  decide

end HistoryCap
end Nginx
end MutinyNet
