namespace TableView.Number

-- Powers of numbers are the core library's own, also beside a library of algebra that has powers
-- in every monoid.
attribute [instance (high)] instPowNat
attribute [default_instance (high)] instPowNat

-- A sign, a mantissa below 2^53 and a power of two not below 2^(-1074).
structure Binary64 where
  negative : Bool
  mantissa : Nat
  exponent : Int
deriving DecidableEq,Inhabited,Repr

namespace Binary64

def leastExponent : Int := -1074

def greatestExponent : Int := 971

def zero : Binary64 := ⟨false,0,leastExponent⟩

def isZero (x : Binary64) : Bool := x.mantissa == 0

def ratio (x : Binary64) : Nat × Nat :=
  (x.mantissa * 2 ^ x.exponent.toNat,2 ^ (-x.exponent).toNat)

def log2Ratio (num den : Nat) : Int :=
  let k : Int := Int.ofNat num.log2 - Int.ofNat den.log2
  if den * 2 ^ k.toNat ≤ num * 2 ^ (-k).toNat then k else k - 1

-- The nearest natural to a ratio; a tie goes to the even neighbour.
def nearest (num den : Nat) : Nat :=
  let whole := num / den
  let twice := 2 * (num % den)
  if twice < den then whole
  else if den < twice then whole + 1
  else if whole % 2 == 0 then whole else whole + 1

def ofRatio? (negative : Bool) (num den : Nat) : Option Binary64 :=
  if num == 0 then some ⟨negative,0,leastExponent⟩
  else
    let exponent := max (log2Ratio num den - 52) leastExponent
    let mantissa := nearest (num * 2 ^ (-exponent).toNat) (den * 2 ^ exponent.toNat)
    let (mantissa,exponent) :=
      if mantissa == 2 ^ 53 then (2 ^ 52,exponent + 1) else (mantissa,exponent)
    if exponent ≤ greatestExponent then some ⟨negative,mantissa,exponent⟩ else none

def mul? (x y : Binary64) : Option Binary64 :=
  ofRatio? (x.negative != y.negative) (x.ratio.1 * y.ratio.1) (x.ratio.2 * y.ratio.2)

def div? (x y : Binary64) : Option Binary64 :=
  ofRatio? (x.negative != y.negative) (x.ratio.1 * y.ratio.2) (x.ratio.2 * y.ratio.1)

def ofNat? (n : Nat) : Option Binary64 := ofRatio? false n 1

def toInt? (x : Binary64) : Option Int :=
  let (num,den) := x.ratio
  if num % den == 0 then
    some (if x.negative then -Int.ofNat (num / den) else Int.ofNat (num / den))
  else none

def powerOfTen? (k : Nat) : Option Binary64 := if k ≤ 308 then ofNat? (10 ^ k) else none

-- The number written as a significand times a power of ten. The significand is rounded first and
-- then multiplied or divided by a rounded power of ten, so the last digit of the result can differ
-- from the nearest number; exponents below -308 are applied in steps.
def scaleByTen? (x : Binary64) (exponent : Int) : Option Binary64 :=
  if exponent.natAbs ≤ 308 then
    (powerOfTen? exponent.natAbs).bind (fun power =>
      if 0 ≤ exponent then x.mul? power else x.div? power)
  else if x.isZero then some x
  else if _h : 0 ≤ exponent then none
  else
    (powerOfTen? 308).bind (fun power =>
      (x.div? power).bind (fun y => scaleByTen? y (exponent + 308)))
termination_by exponent.natAbs

def ofDecimal? (negative : Bool) (significand : Nat) (exponent : Int) : Option Binary64 :=
  ((ofNat? significand).bind (fun x => x.scaleByTen? exponent)).map
    (fun x => { x with negative := negative })

end Binary64

end TableView.Number
