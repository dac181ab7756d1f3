namespace IndexFleet.Decimal

-- A finite positive double as `mantissa * 2 ^ exponent`.
structure Binary where
  mantissa : Nat
  exponent : Int
  -- the gap below is half the gap above
  lowest : Bool

def Binary.ofBits (bits : Nat) : Binary :=
  let field : Nat := bits / Nat.pow 2 52 % Nat.pow 2 11
  let fraction : Nat := bits % Nat.pow 2 52
  if field = 0 then ⟨fraction, -1074, false⟩
  else ⟨fraction + Nat.pow 2 52, (field : Int) - 1075, fraction = 0 ∧ 1 < field⟩

-- A positive decimal `digits * 10 ^ exponent`.
structure Scaled where
  digits : Nat
  exponent : Int
  deriving Repr, DecidableEq

def scale (numerator denominator : Nat) (power : Int) : Nat × Nat :=
  if 0 ≤ power then (numerator * Nat.pow 10 power.toNat, denominator)
  else (numerator, denominator * Nat.pow 10 (-power).toNat)

-- The point of the grid `10 ^ unit` that is nearest to the value among the value's two neighbours
-- that read back as the same double. All numbers are quarters of the value's last binary place:
-- the doubles' halfway points lie two quarters above and, at the lowest mantissa, one below.
def nearestOn (value : Binary) (unit : Int) : Option Scaled :=
  let down := if value.lowest then 1 else 2
  let binary := value.exponent - 2
  let quarters (n : Nat) : Nat × Nat :=
    if 0 ≤ binary then (n * Nat.pow 2 binary.toNat, 1) else (n, Nat.pow 2 (-binary).toNat)
  let onGrid (n : Nat) : Nat × Nat := scale (quarters n).1 (quarters n).2 (-unit)
  let (num, den) := onGrid (4 * value.mantissa)
  let (low, _) := onGrid (4 * value.mantissa - down)
  let (high, _) := onGrid (4 * value.mantissa + 2)
  let closed := value.mantissa % 2 = 0
  let inside (n : Nat) : Bool :=
    0 < n && (if closed then low ≤ n * den && n * den ≤ high else low < n * den && n * den < high)
  let floor := num / den
  match inside floor, inside (floor + 1) with
  | true, true =>
      if num - floor * den ≤ (floor + 1) * den - num then some ⟨floor, unit⟩
      else some ⟨floor + 1, unit⟩
  | true, false => some ⟨floor, unit⟩
  | false, true => some ⟨floor + 1, unit⟩
  | false, false => none

-- The number of decimal places before the point, at least for values from one upwards; below one
-- the number of zeros after the point, negated.
def magnitude (value : Binary) : Int :=
  if 0 ≤ value.exponent then
    (toString (value.mantissa * Nat.pow 2 value.exponent.toNat)).length
  else
    let whole := value.mantissa / Nat.pow 2 (-value.exponent).toNat
    if 0 < whole then (toString whole).length
    else
      -- `10 ^ 340 * value` has as many digits as there are places left
      let shifted := value.mantissa * Nat.pow 10 340 / Nat.pow 2 (-value.exponent).toNat
      ((toString shifted).length : Int) - 340

-- The shortest decimal that reads back as the value: of the grids with one, two, … seventeen
-- digits the first one that has such a point.
def shortest (value : Binary) : Scaled :=
  let places := magnitude value
  ((List.range 17).findSome? fun (k : Nat) => nearestOn value (places - 1 - (k : Int))).getD
    ⟨value.mantissa, value.exponent⟩

-- A decimal written out in full, never with an exponent.
def Scaled.render (number : Scaled) : String :=
  let digits := toString number.digits
  if 0 ≤ number.exponent then digits ++ String.ofList (List.replicate number.exponent.toNat '0')
  else
    let places := (-number.exponent).toNat
    let padded := String.ofList (List.replicate (places + 1 - digits.length) '0') ++ digits
    let whole := padded.toList.take (padded.length - places)
    let fraction := padded.toList.drop (padded.length - places)
    String.ofList (whole ++ '.' :: fraction)

def Scaled.trimmed (number : Scaled) : Nat → Scaled
  | 0 => number
  | fuel + 1 =>
      if number.digits % 10 = 0 ∧ 0 < number.digits then
        trimmed ⟨number.digits / 10, number.exponent + 1⟩ fuel
      else number

def render (value : Float) : String :=
  let bits := value.toBits.toNat
  let sign := if bits / Nat.pow 2 63 = 1 then "-" else ""
  if value.isNaN then "NaN"
  else if value.isInf then sign ++ "inf"
  else if bits % Nat.pow 2 63 = 0 then sign ++ "0"
  else sign ++ ((shortest (Binary.ofBits (bits % Nat.pow 2 63))).trimmed 20).render

end IndexFleet.Decimal
