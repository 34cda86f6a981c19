import UtilityCss.Toml.Lexical
import UtilityCss.Toml.Value

/-!
# TOML numbers, dates and times

Values that are neither strings nor brackets are written as a single word: `true`, `1_000`, `0x1F`,
`-2.5e3`, `inf`, `1979-05-27T07:32:00Z`.  `word?` tells which value a word is.

* **Integers** fit into 64 bits with a sign.  Digits may be separated by single underscores; a
  decimal number does not begin with an idle zero.
* **Floats** are only recognised.  A positive one too large for double precision is refused.
* **Dates and times** must exist, and are kept in their usual form.
-/

namespace UtilityCss.Toml

/-! ## Digits -/

/-- The digits of a number without the underscores, each of which stands between two digits. -/
def digitsIn? (isDigit : Char → Bool) : (afterDigit : Bool) → List Char → Option (List Char)
  | afterDigit, [] => if afterDigit then some [] else none
  | afterDigit, c :: rest =>
    if isDigit c then (digitsIn? isDigit true rest).map (c :: ·)
    else if c == '_' && afterDigit then digitsIn? isDigit false rest
    else none

/-- The number written by digits of a base. -/
def digitsValue (base : Nat) (digits : List Char) : Nat :=
  digits.foldl (fun n c => n * base + (hexValue? c).getD 0) 0

/-- The sign of a number, and what follows it. -/
def splitSign : List Char → Bool × List Char
  | '-' :: rest => (true, rest)
  | '+' :: rest => (false, rest)
  | cs => (false, cs)

/-- The digits of a decimal number that does not begin with an idle zero. -/
def decimalDigits? (cs : List Char) : Option (List Char) :=
  match cs with
  | ['0'] => some ['0']
  | '0' :: _ => none
  | _ => digitsIn? Char.isDigit false cs

/-! ## Integers -/

/-- An integer, if it fits into 64 bits with a sign. -/
def signed64? (negative : Bool) (n : Nat) : Option Value :=
  if negative then if n ≤ Nat.pow 2 63 then some (.integer (-n)) else none
  else if n < Nat.pow 2 63 then some (.integer n) else none

/-- An integer in any of its notations. -/
def integer? (word : List Char) : Option Value :=
  match word with
  | '0' :: 'x' :: digits => do
    signed64? false (digitsValue 16 (← digitsIn? (fun c => (hexValue? c).isSome) false digits))
  | '0' :: 'o' :: digits => do
    signed64? false (digitsValue 8 (← digitsIn? (fun c => '0' ≤ c && c ≤ '7') false digits))
  | '0' :: 'b' :: digits => do
    signed64? false (digitsValue 2 (← digitsIn? (fun c => c == '0' || c == '1') false digits))
  | _ => do
    let (negative, digits) := splitSign word
    signed64? negative (digitsValue 10 (← decimalDigits? digits))

/-! ## Floats -/

/-- The least number that double precision rounds to infinity. -/
def overflowBound : Nat := Nat.pow 2 1024 - Nat.pow 2 970

/-- Whether digits with a point before the last `places` of them, times a power of ten, are too
large for double precision. -/
def overflows (digits : List Char) (places : Nat) (negativePower : Bool) (power : Nat) : Bool :=
  let n := digitsValue 10 digits
  if n = 0 then false
  else if negativePower then
    if digits.length < places + power then false
    else overflowBound * Nat.pow 10 (places + power) ≤ n
  else if places + 400 < power then true
  else overflowBound * Nat.pow 10 places ≤ n * Nat.pow 10 power

/-- The digits of a power of ten with the sign in front of them. -/
def power? (cs : List Char) : Option (Bool × List Char) := do
  let (negative, digits) := splitSign cs
  return (negative, ← digitsIn? Char.isDigit false digits)

/-- A float with a fraction or a power of ten. -/
def decimalFloat? (word : List Char) : Option Value := do
  let (negative, unsigned) := splitSign word
  let isPower (c : Char) := c == 'e' || c == 'E'
  let whole := unsigned.takeWhile fun c => c != '.' && !isPower c
  let wholeDigits ← decimalDigits? whole
  let rest := unsigned.drop whole.length
  let (fraction, rest) ← match rest with
    | '.' :: rest => do
      let fraction := rest.takeWhile fun c => !isPower c
      pure (← digitsIn? Char.isDigit false fraction, rest.drop fraction.length)
    | rest => if rest.isEmpty then none else pure ([], rest)
  let (negativePower, powerDigits) ← match rest with
    | [] => pure (false, [])
    | _ :: rest => power? rest
  if !negative &&
      overflows (wholeDigits ++ fraction) fraction.length negativePower
        (digitsValue 10 powerDigits) then none
  else some .float

/-- A float, also one without digits. -/
def float? (word : List Char) : Option Value :=
  let unsigned := (splitSign word).2
  if unsigned == "inf".toList || unsigned == "nan".toList then some .float
  else decimalFloat? word

/-! ## Dates and times -/

def pair? (a b : Char) : Option Nat :=
  if a.isDigit && b.isDigit then some (digitsValue 10 [a, b]) else none

def daysIn (year month : Nat) : Nat :=
  if month = 2 then
    if year % 4 = 0 && (year % 100 != 0 || year % 400 = 0) then 29 else 28
  else if month = 4 || month = 6 || month = 9 || month = 11 then 30
  else 31

/-- A number that lies between two others. -/
def between? (low high n : Nat) : Option Nat :=
  if low ≤ n && n ≤ high then some n else none

/-- A date in front of a text, and what follows it. -/
def date? : List Char → Option (String × List Char)
  | y1 :: y2 :: y3 :: y4 :: '-' :: m1 :: m2 :: '-' :: d1 :: d2 :: rest => do
    let century ← pair? y1 y2
    let year := 100 * century + (← pair? y3 y4)
    let month ← between? 1 12 (← pair? m1 m2)
    let _ ← between? 1 (daysIn year month) (← pair? d1 d2)
    return (String.ofList [y1, y2, y3, y4, '-', m1, m2, '-', d1, d2], rest)
  | _ => none

/-- The digits of a second's fraction as they are kept: nine at most, no idle zeros. -/
def keptFraction (digits : List Char) : List Char :=
  ((digits.take 9).reverse.dropWhile (· == '0')).reverse

/-- A time in front of a text, and what follows it. -/
def time? : List Char → Option (String × List Char)
  | h1 :: h2 :: ':' :: m1 :: m2 :: ':' :: s1 :: s2 :: rest => do
    let _ ← between? 0 23 (← pair? h1 h2)
    let _ ← between? 0 59 (← pair? m1 m2)
    let _ ← between? 0 60 (← pair? s1 s2)
    let base := String.ofList [h1, h2, ':', m1, m2, ':', s1, s2]
    match rest with
    | '.' :: rest =>
      let digits := rest.takeWhile Char.isDigit
      if digits.isEmpty then none
      else
        let kept := keptFraction digits
        let shown := if kept.isEmpty then base else base ++ "." ++ String.ofList kept
        some (shown, rest.drop digits.length)
    | rest => some (base, rest)
  | _ => none

/-- The distance of a time from universal time, which must end the word.  A distance of nothing
has a plus sign, however it was written. -/
def offset? : List Char → Option String
  | [] => some ""
  | ['Z'] => some "Z"
  | ['z'] => some "Z"
  | [sign, h1, h2, ':', m1, m2] =>
    if sign == '+' || sign == '-' then do
      let hours ← between? 0 23 (← pair? h1 h2)
      let minutes ← between? 0 59 (← pair? m1 m2)
      let sign := if hours == 0 && minutes == 0 then '+' else sign
      return String.ofList [sign, h1, h2, ':', m1, m2]
    else none
  | _ => none

/-- A time, with its distance from universal time if it follows a date. -/
def zonedTime? (cs : List Char) : Option String := do
  let (time, rest) ← time? cs
  return time ++ (← offset? rest)

/-- A date, a time, or a date and a time joined by a letter. -/
def moment? (word : List Char) : Option Value :=
  match date? word with
  | some (date, []) => some (.moment date)
  | some (date, c :: rest) =>
    if c == 'T' || c == 't' || c == ' ' then
      (zonedTime? rest).map fun time => .moment (date ++ "T" ++ time)
    else none
  | none =>
    match time? word with
    | some (time, []) => some (.moment time)
    | _ => none

/-! ## Words -/

/-- Characters of values that are written as one word. -/
def isWordChar (c : Char) : Bool :=
  c.isAlphanum || c == '+' || c == '-' || c == '_' || c == '.' || c == ':'

/-- The word in front of a text, and what follows.  A blank and two digits with a colon behind a
date are its time. -/
def splitWord (cs : List Char) : List Char × List Char :=
  let word := cs.takeWhile isWordChar
  let rest := cs.dropWhile isWordChar
  match rest with
  | ' ' :: h1 :: h2 :: ':' :: _ =>
    if (date? word).any (·.2.isEmpty) && h1.isDigit && h2.isDigit then
      let time := rest.tail.takeWhile isWordChar
      (word ++ [' '] ++ time, rest.tail.dropWhile isWordChar)
    else (word, rest)
  | _ => (word, rest)

/-- The value of a word. -/
def word? (word : List Char) : Option Value :=
  if word == "true".toList then some (.boolean true)
  else if word == "false".toList then some (.boolean false)
  else ((moment? word).or (float? word)).or (integer? word)

end UtilityCss.Toml
