import Tableau.Json.Basic

/-!
Reading JSON text: one value with nothing but white space around it.  The
grammar is strict: no leading zeros, no point without digits on both sides, no
control characters inside strings, no comma before a closing bracket.
-/

namespace Tableau

namespace Json

def isBlank (c : Char) : Bool :=
  c == ' ' || c == '\t' || c == '\n' || c == '\r'

def skipBlanks (text : List Char) : List Char := text.dropWhile isBlank

def digitsValue (digits : List Char) : Nat :=
  digits.foldl (fun value c => 10 * value + (c.toNat - '0'.toNat)) 0

def hexDigit? (c : Char) : Option Nat :=
  if '0' ≤ c ∧ c ≤ '9' then some (c.toNat - '0'.toNat)
  else if 'a' ≤ c ∧ c ≤ 'f' then some (c.toNat - 'a'.toNat + 10)
  else if 'A' ≤ c ∧ c ≤ 'F' then some (c.toNat - 'A'.toNat + 10)
  else none

def hexUnit? (a b c d : Char) : Option Nat := do
  pure (4096 * (← hexDigit? a) + 256 * (← hexDigit? b) + 16 * (← hexDigit? c) +
    (← hexDigit? d))

def plainEscape? (c : Char) : Option Char :=
  if c = '"' ∨ c = '\\' ∨ c = '/' then some c
  else if c = 'b' then some '\x08'
  else if c = 'f' then some '\x0c'
  else if c = 'n' then some '\n'
  else if c = 'r' then some '\r'
  else if c = 't' then some '\t'
  else none

/-- A piece of a string: a character as it stands, or the 16-bit unit that an
escape writes. -/
inductive StringPiece where
  | char (value : Char)
  | unit (value : Nat)
deriving DecidableEq, Repr

def StringPiece.isPlain : StringPiece → Bool
  | char _ => true
  | unit _ => false

/-- The pieces up to the closing quote, and the text behind it. -/
def stringPieces? :
    List Char → Option (List StringPiece × List Char)
  | [] => none
  | '"' :: rest => some ([], rest)
  | '\\' :: 'u' :: a :: b :: c :: d :: rest => do
      let unit ← hexUnit? a b c d
      let (pieces, behind) ← stringPieces? rest
      pure (.unit unit :: pieces, behind)
  | '\\' :: c :: rest => do
      let escaped ← plainEscape? c
      let (pieces, behind) ← stringPieces? rest
      pure (.unit escaped.toNat :: pieces, behind)
  | c :: rest =>
      if c.toNat < 32 ∨ c = '\\' then none
      else do
        let (pieces, behind) ← stringPieces? rest
        pure (.char c :: pieces, behind)

/-- The characters of a string.  Two units that form a surrogate pair write one
character; half of a pair writes none. -/
def joinPieces? : List StringPiece → Option (List Char)
  | [] => some []
  | .char c :: rest => (joinPieces? rest).map (c :: ·)
  | .unit high :: rest =>
      if high < 0xD800 ∨ 0xDFFF < high then
        (joinPieces? rest).map (Char.ofNat high :: ·)
      else
        match rest with
        | .unit low :: behind =>
            if high < 0xDC00 ∧ 0xDC00 ≤ low ∧ low ≤ 0xDFFF then
              (joinPieces? behind).map
                (Char.ofNat (0x10000 + (high - 0xD800) * 1024 + (low - 0xDC00)) ::
                  ·)
            else none
        | _ => none

/-- A string behind its opening quote, if it stands for a text, and what
follows it. -/
def readString? (text : List Char) : Option (Option String × List Char) := do
  let (pieces, behind) ← stringPieces? text
  pure ((joinPieces? pieces).map String.ofList, behind)

def readKey? (text : List Char) : Option (Option JsonKey × List Char) := do
  let (pieces, behind) ← stringPieces? text
  let plain := pieces.all StringPiece.isPlain
  pure ((joinPieces? pieces).map
    (fun characters => { text := String.ofList characters, plain }), behind)

def readDigits? (text : List Char) : Option (List Char × List Char) :=
  let digits := text.takeWhile Char.isDigit
  if digits.isEmpty then none else some (digits, text.dropWhile Char.isDigit)

def readFraction? : List Char → Option (Option (List Char) × List Char)
  | '.' :: rest => do
      let (digits, behind) ← readDigits? rest
      pure (some digits, behind)
  | text => some (none, text)

def readExponent? : List Char → Option (Option Int × List Char)
  | [] => some (none, [])
  | c :: rest =>
      if c = 'e' ∨ c = 'E' then
        let (negative, unsigned) :=
          match rest with
          | '-' :: behind => (true, behind)
          | '+' :: behind => (false, behind)
          | behind => (false, behind)
        do
          let (digits, behind) ← readDigits? unsigned
          let power : Int := digitsValue digits
          pure (some (if negative then -power else power), behind)
      else some (none, c :: rest)

/-- An integer is kept as such if a 64-bit word holds it, signed or unsigned,
but for -0, which is an amount. -/
def integerNumber? (negative : Bool) (magnitude : Nat) : Option JsonNumber :=
  if negative then
    if 0 < magnitude ∧ Int64.minValue.toInt ≤ -(magnitude : Int) then
      some (.integer (-(magnitude : Int)))
    else (Amount.ofDecimal? true magnitude 0).map .amount
  else if magnitude < UInt64.size then some (.integer magnitude)
  else (Amount.ofDecimal? false magnitude 0).map .amount

def numberValue? (negative : Bool) (whole : List Char)
    (fraction : Option (List Char)) (power : Option Int) : Option JsonNumber :=
  match fraction, power with
  | none, none => integerNumber? negative (digitsValue whole)
  | _, _ =>
      let places := fraction.getD []
      (Amount.ofDecimal? negative (digitsValue (whole ++ places))
        (power.getD 0 - places.length)).map .amount

/-- A number behind its sign.  A zero in front is a number of its own. -/
def readUnsigned? (negative : Bool) (text : List Char) :
    Option (Json × List Char) := do
  let (whole, behind) ← readDigits? text
  if whole.head? = some '0' ∧ 1 < whole.length then none
  else
    let (fraction, behind) ← readFraction? behind
    let (power, behind) ← readExponent? behind
    match numberValue? negative whole fraction power with
    | some value => pure (.number value, behind)
    | none => pure (.unreadable, behind)

def readScalar? (text : List Char) : Option (Json × List Char) :=
  match text with
  | 'n' :: 'u' :: 'l' :: 'l' :: rest => some (.null, rest)
  | 't' :: 'r' :: 'u' :: 'e' :: rest => some (.bool true, rest)
  | 'f' :: 'a' :: 'l' :: 's' :: 'e' :: rest => some (.bool false, rest)
  | '-' :: rest => readUnsigned? true rest
  | _ => readUnsigned? false text

/-- Put a member in front of others.  If a key stands for nothing, so does the
object. -/
def addMember (key : Option JsonKey) (value : Json)
    (others : Option (List (JsonKey × Json))) :
    Option (List (JsonKey × Json)) :=
  match key, others with
  | some key, some others => some ((key, value) :: others)
  | _, _ => none

mutual

def readValue? : Nat → List Char → Option (Json × List Char)
  | 0, _ => none
  | fuel + 1, text =>
      match skipBlanks text with
      | '"' :: rest => do
          let (value, behind) ← readString? rest
          pure ((value.map .string).getD .unreadable, behind)
      | '[' :: rest =>
          match skipBlanks rest with
          | ']' :: behind => some (.list [], behind)
          | inner => do
              let (items, behind) ← readItems? fuel inner
              pure (.list items, behind)
      | '\x7b' :: rest =>
          match skipBlanks rest with
          | '\x7d' :: behind => some (.record [], behind)
          | inner => do
              let (members, behind) ← readMembers? fuel inner
              pure ((members.map .record).getD .unreadable, behind)
      | scalar => readScalar? scalar

def readItems? : Nat → List Char → Option (List Json × List Char)
  | 0, _ => none
  | fuel + 1, text => do
      let (item, behind) ← readValue? fuel text
      match skipBlanks behind with
      | ']' :: rest => pure ([item], rest)
      | ',' :: rest => do
          let (others, behind) ← readItems? fuel rest
          pure (item :: others, behind)
      | _ => none

def readMembers? :
    Nat → List Char → Option (Option (List (JsonKey × Json)) × List Char)
  | 0, _ => none
  | fuel + 1, text =>
      match skipBlanks text with
      | '"' :: rest => do
          let (key, behind) ← readKey? rest
          match skipBlanks behind with
          | ':' :: rest => do
              let (value, behind) ← readValue? fuel rest
              match skipBlanks behind with
              | '\x7d' :: rest => pure (addMember key value (some []), rest)
              | ',' :: rest => do
                  let (others, behind) ← readMembers? fuel rest
                  pure (addMember key value others, behind)
              | _ => none
          | _ => none
      | _ => none

end

/-- Read a text that holds one value.  Every level and every element takes at
least one character, so the length of the text bounds the recursion. -/
def read? (text : String) : Option Json :=
  match readValue? (text.length + 1) text.toList with
  | some (value, behind) =>
      if (skipBlanks behind).isEmpty then some value else none
  | none => none

end Json

end Tableau
