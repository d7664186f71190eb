import TableView.Number.Binary64

namespace TableView.Text.Numeral

def digit (n : Nat) : Char := Char.ofNat (48 + n)

def digitValue? (c : Char) : Option Nat :=
  if '0' ≤ c ∧ c ≤ '9' then some (c.toNat - 48) else none

def isDigit (c : Char) : Bool := (digitValue? c).isSome

def ofNat (n : Nat) : List Char :=
  if n < 10 then [digit n] else ofNat (n / 10) ++ [digit (n % 10)]
termination_by n

def ofInt (i : Int) : List Char :=
  if i < 0 then '-' :: ofNat i.natAbs else ofNat i.natAbs

def readDigits : Nat → List Char → Option Nat
  | value,[] => some value
  | value,c :: rest =>
    match digitValue? c with
    | some d => readDigits (value * 10 + d) rest
    | none => none

def toNat? : List Char → Option Nat
  | [] => none
  | cs => readDigits 0 cs

def ordinalLimit : Nat := 2 ^ 64

def toOrdinal? (cs : List Char) : Option Nat :=
  let digits := match cs with
    | '+' :: rest => rest
    | _ => cs
  (toNat? digits).filter (· < ordinalLimit)

def InInt64 (i : Int) : Prop := -2 ^ 63 ≤ i ∧ i < 2 ^ 63

instance (i : Int) : Decidable (InInt64 i) := inferInstanceAs (Decidable (_ ∧ _))

def toInt64? (cs : List Char) : Option Int :=
  let value := match cs with
    | '+' :: rest => (toNat? rest).map Int.ofNat
    | '-' :: rest => (toNat? rest).map (fun n => -(Int.ofNat n))
    | _ => (toNat? cs).map Int.ofNat
  value.filter (fun i => decide (InInt64 i))

def natText (n : Nat) : String := String.ofList (ofNat n)

def intText (i : Int) : String := String.ofList (ofInt i)

end TableView.Text.Numeral
