import TableView.Number.Binary64
import TableView.Text.Numeral

namespace TableView.Number.Shortest

structure Decimal where
  digits : Nat
  exponent : Int
deriving DecidableEq,Repr

structure Interval where
  low : Nat
  value : Nat
  high : Nat
  denominator : Nat
  closed : Bool

-- A power of two as mantissa has a neighbour below that is only half as far away.
def interval (x : Binary64) : Interval :=
  let below := if x.mantissa == 2 ^ 52 && Binary64.leastExponent < x.exponent then 1 else 2
  let e := x.exponent - 2
  let scale := 2 ^ e.toNat
  ⟨(4 * x.mantissa - below) * scale,4 * x.mantissa * scale,(4 * x.mantissa + 2) * scale,
    2 ^ (-e).toNat,x.mantissa % 2 == 0⟩

def leadingExponent (num den : Nat) : Int :=
  if den ≤ num then Int.ofNat (Text.Numeral.ofNat (num / den)).length - 1
  else -Int.ofNat (Text.Numeral.ofNat ((den + num - 1) / num - 1)).length

def Interval.contains (i : Interval) (d : Decimal) : Bool :=
  let num := d.digits * 10 ^ d.exponent.toNat * i.denominator
  let scale := 10 ^ (-d.exponent).toNat
  if i.closed then i.low * scale ≤ num && num ≤ i.high * scale
  else i.low * scale < num && num < i.high * scale

def Interval.atPlace (i : Interval) (place : Int) : Option Decimal :=
  let num := i.value * 10 ^ (-place).toNat
  let den := i.denominator * 10 ^ place.toNat
  let below : Decimal := ⟨num / den,place⟩
  let above : Decimal := ⟨num / den + 1,place⟩
  match i.contains below,i.contains above with
  | true,true => if Binary64.nearest num den = num / den then some below else some above
  | true,false => some below
  | false,true => some above
  | false,false => none

-- Seventeen digits always suffice. The first count of digits with which a decimal next to the
-- number reads back wins.
def search (i : Interval) (lead : Int) (digits : Nat) : Nat → Decimal
  | 0 => ⟨i.value / i.denominator,0⟩
  | left + 1 =>
    match i.atPlace (lead - Int.ofNat digits) with
    | some d => d
    | none => search i lead (digits + 1) left

def shortest (x : Binary64) : Decimal :=
  let i := interval x
  search i (leadingExponent i.value i.denominator) 0 17

def Decimal.strip (d : Decimal) : Decimal :=
  if _h : d.digits ≠ 0 ∧ d.digits % 10 = 0 then strip ⟨d.digits / 10,d.exponent + 1⟩ else d
termination_by d.digits
decreasing_by omega

-- The first digits are written positionally from the fifth place behind the point up to the
-- sixteenth in front of it; outside of that an exponent with a sign follows.
def positional (lead : Int) : Bool := -5 ≤ lead && lead ≤ 15

def layout (d : Decimal) : List Char :=
  let ds := Text.Numeral.ofNat d.digits
  let lead := d.exponent + Int.ofNat ds.length - 1
  if positional lead then
    if lead < 0 then ['0','.'] ++ List.replicate (-lead - 1).toNat '0' ++ ds
    else if 0 ≤ d.exponent then ds ++ List.replicate d.exponent.toNat '0' ++ ['.','0']
    else ds.take (lead + 1).toNat ++ ['.'] ++ ds.drop (lead + 1).toNat
  else
    let fraction := if ds.length == 1 then [] else '.' :: ds.drop 1
    let exponent := (if lead < 0 then '-' else '+') :: Text.Numeral.ofNat lead.natAbs
    ds.take 1 ++ fraction ++ ['e'] ++ exponent

def write (x : Binary64) : List Char :=
  let body := if x.isZero then ['0','.','0'] else layout (shortest x).strip
  if x.negative then '-' :: body else body

end TableView.Number.Shortest
