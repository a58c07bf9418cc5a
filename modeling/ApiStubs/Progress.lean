/-!
# Progress — how far a run has come

The counters of a documentation run, and the share of the work that is done as a percentage. The
share is a binary floating-point number, written with a fixed number of decimals: of its exact
value, rounded half to even.
-/

namespace ApiStubs

/-- What a run has written. -/
structure Statistics where
  /-- The documented packages in order. -/
  packages : List String := []
  packagePages : Nat := 0
  symbolPages : Nat := 0
  deriving DecidableEq, Inhabited

/-- The number of files written. -/
def Statistics.files (statistics : Statistics) : Nat :=
  statistics.packagePages + statistics.symbolPages

/-- The state of a run over a known number of packages. -/
structure Progress where
  total : Nat
  statistics : Statistics := {}
  deriving DecidableEq, Inhabited

namespace Progress

/-- One more package is done, with the given number of symbols. -/
def advance (progress : Progress) (package : String) (symbols : Nat) : Progress :=
  { progress with statistics := {
      packages := progress.statistics.packages ++ [package]
      packagePages := progress.statistics.packagePages + 1
      symbolPages := progress.statistics.symbolPages + symbols } }

/-- The number of packages done. -/
def done (progress : Progress) : Nat := progress.statistics.packagePages

/-- The share of the packages that is done, in percent; zero if there are none. -/
def percentage (progress : Progress) : Float :=
  if progress.total = 0 then 0
  else progress.done.toFloat / progress.total.toFloat * 100

end Progress

/-! ### Fixed decimals -/

namespace Decimal

/-- A quotient rounded to a whole number, halves to the even neighbour. -/
def roundHalfEven (numerator denominator : Nat) : Nat :=
  let whole := numerator / denominator
  let twice := 2 * (numerator % denominator)
  if twice < denominator then whole
  else if denominator < twice then whole + 1
  else if whole % 2 = 0 then whole else whole + 1

/-- A quotient written with the given number of decimals. -/
def fixedText (places numerator denominator : Nat) : String :=
  let scaled := roundHalfEven (numerator * Nat.pow 10 places) denominator
  let decimals := toString (scaled % Nat.pow 10 places)
  toString (scaled / Nat.pow 10 places) ++ "."
    ++ String.ofList (List.replicate (places - decimals.length) '0') ++ decimals

/-- The exact value of a finite number that is not negative, as a quotient. -/
def quotient (x : Float) : Nat × Nat :=
  let bits := x.toBits.toNat
  let mantissa := bits % Nat.pow 2 52
  let exponent := bits / Nat.pow 2 52 % Nat.pow 2 11
  let (digits, power) :=
    if exponent = 0 then (mantissa, 1) else (mantissa + Nat.pow 2 52, exponent)
  if 1075 ≤ power then (digits * Nat.pow 2 (power - 1075), 1)
  else (digits, Nat.pow 2 (1075 - power))

/-- A finite number that is not negative, written with the given number of decimals. -/
def fixedFloat (places : Nat) (x : Float) : String :=
  let (numerator, denominator) := quotient x
  fixedText places numerator denominator

end Decimal

end ApiStubs
