import TableView.Proofs.Json.Real

namespace TableView.Json

def Number.Legible : Number → Prop
  | .integer i => (Number.integer i).InRange
  | .real x => x.Valid

def Reads (p : α → Prop) (r : Except Fault (α × List Char)) : Prop :=
  ∀ a rest, r = .ok (a,rest) → p a

theorem reads_error {p : α → Prop} (f : Fault) : Reads p (.error f) := by
  intro a rest read
  cases read

namespace Scan

open Text.Numeral (digitValue?_lt)
open TableView.Number (Binary64)

theorem realOf_reads (negative : Bool) (digits : Nat) (exponent : Int) (rest : List Char) :
    Reads Number.Legible (realOf negative digits exponent rest) := by
  rw [realOf]
  split
  · rename_i x given
    intro n rest read
    cases read
    exact Binary64.ofDecimal?_valid given
  · exact reads_error _

theorem exponentPart_reads (negative : Bool) (digits : Nat) (start : Int) (s : List Char) :
    Reads Number.Legible (exponentPart negative digits start s) := by
  rw [exponentPart]
  dsimp only
  split
  · exact reads_error _
  · split
    · exact reads_error _
    · split
      · exact realOf_reads _ _ _ _
      · split
        · exact reads_error _
        · intro n rest read
          cases read
          exact Binary64.zero_valid negative

theorem afterFraction_reads (negative : Bool) (digits : Nat) (exponent : Int)
    (s : List Char) : Reads Number.Legible (afterFraction negative digits exponent s) := by
  rw [afterFraction.eq_def]
  split
  · split
    · exact exponentPart_reads _ _ _ _
    · exact realOf_reads _ _ _ _
  · exact realOf_reads _ _ _ _

theorem fractionPart_reads (negative : Bool) (digits : Nat) (exponent : Int)
    (s : List Char) : Reads Number.Legible (fractionPart negative digits exponent s) := by
  rw [fractionPart]
  dsimp only
  split
  · exact afterFraction_reads _ _ _ _
  · split
    · split <;> exact reads_error _
    · exact afterFraction_reads _ _ _ _

theorem integerOf_reads (negative : Bool) {digits : Nat}
    (bounded : digits ≤ greatestSignificand) (rest : List Char) :
    Reads Number.Legible (integerOf negative digits rest) := by
  rw [greatestSignificand] at bounded
  rw [integerOf]
  split
  · intro n rest read
    cases read
    exact ⟨by omega,by omega⟩
  · split
    · rename_i small
      rw [Bool.and_eq_true,decide_eq_true_eq,decide_eq_true_eq] at small
      intro n rest read
      cases read
      exact ⟨by omega,by omega⟩
    · exact realOf_reads _ _ _ _

theorem afterInteger_reads (negative : Bool) {digits : Nat}
    (bounded : digits ≤ greatestSignificand) (s : List Char) :
    Reads Number.Legible (afterInteger negative digits s) := by
  rw [afterInteger.eq_def]
  split
  · exact fractionPart_reads _ _ _ _
  · split
    · exact exponentPart_reads _ _ _ _
    · exact integerOf_reads negative bounded _
  · exact integerOf_reads negative bounded _

theorem longInteger_reads (negative : Bool) (digits : Nat) (s : List Char) :
    Reads Number.Legible (longInteger negative digits s) := by
  rw [longInteger]
  split
  · exact fractionPart_reads _ _ _ _
  · exact afterFraction_reads _ _ _ _

theorem significand_le {value : Nat} (bounded : value ≤ greatestSignificand) (taken : Nat)
    (s : List Char) : (significand value taken s).1 ≤ greatestSignificand := by
  induction s generalizing value taken with
  | nil => exact bounded
  | cons c s ih =>
    rw [significand]
    split
    · split
      · rename_i room
        exact ih room _
      · exact bounded
    · exact bounded

theorem unsigned_reads (negative : Bool) (s : List Char) :
    Reads Number.Legible (unsigned negative s) := by
  rw [unsigned.eq_def]
  split
  · exact reads_error _
  · split
    · exact reads_error _
    · split
      · exact reads_error _
      · exact afterInteger_reads negative (Nat.zero_le _) _
    · rename_i c rest _ d _ digit
      have bounded := significand_le (show d ≤ greatestSignificand by
        have := digitValue?_lt digit
        simp only [greatestSignificand]
        omega) 0 rest
      generalize significand d 0 rest = taken at bounded ⊢
      obtain ⟨digits,_,behind⟩ := taken
      dsimp only
      split
      · exact longInteger_reads _ _ _
      · exact afterInteger_reads negative bounded _

theorem number_legible {s rest : List Char} {n : Number} (read : number s = .ok (n,rest)) :
    n.Legible := by
  rw [number.eq_def] at read
  split at read
  · exact unsigned_reads _ _ _ _ read
  · exact unsigned_reads _ _ _ _ read

end Scan

def Number.reread (n : Number) : Number :=
  match Scan.number n.write with
  | .ok (m,_) => m
  | .error _ => n

theorem Scan.ofInt_head (i : Int) :
    ∃ c tail, Text.Numeral.ofInt i = c :: tail ∧ startsNumber c = true := by
  rw [Text.Numeral.ofInt]
  split
  · exact ⟨'-',_,rfl,rfl⟩
  · obtain ⟨d,tail,written,small,_⟩ := Text.Numeral.ofNat_head i.natAbs
    refine ⟨_,tail,written,?_⟩
    rw [startsNumber,Text.Numeral.isDigit_digit small,Bool.or_true]

namespace Number

theorem write_head {n : Number} (legible : n.Legible) :
    ∃ c tail, n.write = c :: tail ∧ Scan.startsNumber c = true := by
  cases n with
  | integer i => exact Scan.ofInt_head i
  | real x => exact (Scan.number_real legible).1

theorem number_write {n : Number} (legible : n.Legible) {rest : List Char}
    (ends : Scan.endsInteger rest = true) :
    Scan.number (n.write ++ rest) = .ok (n.reread,rest) := by
  have back : ∃ m, ∀ rest, Scan.endsInteger rest = true →
      Scan.number (n.write ++ rest) = .ok (m,rest) := by
    cases n with
    | integer i => exact ⟨_,fun rest ends => Scan.number_ofInt legible.1 legible.2 ends⟩
    | real x =>
      obtain ⟨y,read⟩ := (Scan.number_real legible).2
      exact ⟨_,read⟩
  obtain ⟨m,read⟩ := back
  have alone := read [] rfl
  rw [List.append_nil] at alone
  rw [read rest ends,reread,alone]

theorem reread_integer {i : Int} (inRange : (Number.integer i).InRange) :
    (Number.integer i).reread = .integer i := by
  have read := Scan.number_ofInt inRange.1 inRange.2 (show Scan.endsInteger [] = true from rfl)
  rw [List.append_nil] at read
  have written : (Number.integer i).write = Text.Numeral.ofInt i := rfl
  rw [reread,written,read]

end Number

end TableView.Json
