namespace IndexFleet.Decimal

def digitIn (base : Nat) (c : Char) : Option Nat :=
  let n := c.toNat
  let value :=
    if 0x30 ≤ n ∧ n ≤ 0x39 then n - 0x30
    else if 0x41 ≤ n ∧ n ≤ 0x46 then n - 0x41 + 10
    else if 0x61 ≤ n ∧ n ≤ 0x66 then n - 0x61 + 10
    else 16
  if value < base then some value else none

def natIn (base : Nat) (text : List Char) : Option Nat :=
  match text with
  | [] => none
  | _ => text.foldlM (fun value c => (digitIn base c).map (value * base + ·)) 0

def nat? (text : String) : Option Nat :=
  match text.toList with
  | '+' :: digits => natIn 10 digits
  | digits => natIn 10 digits

def natBelow? (limit : Nat) (text : String) : Option Nat :=
  (nat? text).filter (· < limit)

def infinite : Float := 1.0 / 0.0
def notANumber : Float := 0.0 / 0.0

-- The double nearest to `mantissa * 10 ^ exponent`. Values far outside the range of doubles are
-- decided by their number of places.
def nearest (mantissa : Nat) (exponent : Int) : Float :=
  let places := ((toString mantissa).length : Int) + exponent
  if mantissa = 0 ∨ places < -400 then 0.0
  else if 400 < places then infinite
  else Float.ofScientific mantissa (exponent < 0) exponent.natAbs

-- An exponent mark with its digits; no mark at all means zero.
def exponent? : List Char → Option Int
  | [] => some 0
  | mark :: rest =>
      if mark == 'e' || mark == 'E' then
        match rest with
        | '-' :: digits => (natIn 10 digits).map fun n => -(n : Int)
        | '+' :: digits => (natIn 10 digits).map Int.ofNat
        | digits => (natIn 10 digits).map Int.ofNat
      else none

def unsigned? (text : List Char) : Option Float :=
  let whole := text.takeWhile Char.isDigit
  let rest := text.dropWhile Char.isDigit
  let (fraction, rest) := match rest with
    | '.' :: after => (after.takeWhile Char.isDigit, after.dropWhile Char.isDigit)
    | _ => ([], rest)
  match natIn 10 (whole ++ fraction), exponent? rest with
  | some mantissa, some exponent => some (nearest mantissa (exponent - (fraction.length : Int)))
  | _, _ => none

def float? (text : String) : Option Float :=
  let magnitude (rest : List Char) : Option Float :=
    match String.ofList (rest.map Char.toLower) with
    | "inf" | "infinity" => some infinite
    | "nan" => some notANumber
    | _ => unsigned? rest
  match text.toList with
  | '-' :: rest => (magnitude rest).map (- ·)
  | '+' :: rest => magnitude rest
  | rest => magnitude rest

end IndexFleet.Decimal
