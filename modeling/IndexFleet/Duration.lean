namespace IndexFleet.Duration

-- The text of a time in milliseconds: seconds with as many places as needed from one second
-- upwards, milliseconds below, and zero in nanoseconds.
def render (milliseconds : Nat) : String :=
  if milliseconds = 0 then "0ns"
  else if milliseconds < 1000 then s!"{milliseconds}ms"
  else
    let whole := milliseconds / 1000
    let rest := milliseconds % 1000
    let places := toString (1000 + rest)
    let digits := ((places.toList.drop 1).reverse.dropWhile (· == '0')).reverse
    if digits.isEmpty then s!"{whole}s" else s!"{whole}.{String.ofList digits}s"

end IndexFleet.Duration
