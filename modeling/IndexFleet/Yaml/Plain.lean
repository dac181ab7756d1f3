import IndexFleet.Decimal.Reading

namespace IndexFleet.Yaml.Plain

def isNull (text : String) : Bool :=
  ["null", "Null", "NULL", "~"].contains text

def bool? (text : String) : Option Bool :=
  if ["true", "True", "TRUE"].contains text then some true
  else if ["false", "False", "FALSE"].contains text then some false
  else none

-- A run of digits that starts with a zero and has more digits is no number.
def isZeroPadded (digits : List Char) : Bool :=
  digits.head? == some '0' && 1 < digits.length && digits.all Char.isDigit

def magnitude? : List Char → Option Nat
  | '0' :: 'x' :: digits => Decimal.natIn 16 digits
  | '0' :: 'o' :: digits => Decimal.natIn 8 digits
  | '0' :: 'b' :: digits => Decimal.natIn 2 digits
  | digits => if isZeroPadded digits then none else Decimal.natIn 10 digits

def nat? (text : String) : Option Nat :=
  match text.toList with
  | '+' :: rest => magnitude? rest
  | rest => magnitude? rest

def negated? (text : String) : Option Nat :=
  match text.toList with
  | '-' :: rest => magnitude? rest
  | _ => none

-- A double. Infinities and what is not a number have spellings of their own, and a decimal beyond
-- the largest double is none.
def float? (text : String) : Option Float :=
  match text with
  | ".inf" | ".Inf" | ".INF" | "+.inf" | "+.Inf" | "+.INF" => some Decimal.infinite
  | "-.inf" | "-.Inf" | "-.INF" => some (-Decimal.infinite)
  | ".nan" | ".NaN" | ".NAN" => some Decimal.notANumber
  | _ => (Decimal.float? text).filter (·.isFinite)

end IndexFleet.Yaml.Plain
