import TableView.Json.Writer
import TableView.Json.Scan
import TableView.Proofs.Text.Numeral

namespace TableView.Json.Scan

open Text
open Text.Numeral (digit digitValue? digitValue?_digit ofNat_head)

theorem hexValue?_hexDigit {n : Nat} (small : n < 16) :
    hexValue? (Quoted.hexDigit n) = some n := by
  have all : ∀ n < 16, hexValue? (Quoted.hexDigit n) = some n := by decide
  exact all n small

theorem hexFour_control {n : Nat} (control : n < 32) (rest : List Char) :
    hexFour ('0' :: '0' :: Quoted.hexDigit (n / 16) :: Quoted.hexDigit (n % 16) :: rest) =
      .ok (n,rest) := by
  have zero : hexValue? '0' = some 0 := rfl
  have high : hexValue? (Quoted.hexDigit (n / 16)) = some (n / 16) :=
    hexValue?_hexDigit (by omega)
  have low : hexValue? (Quoted.hexDigit (n % 16)) = some (n % 16) :=
    hexValue?_hexDigit (by omega)
  have value : ((0 * 16 + 0) * 16 + n / 16) * 16 + n % 16 = n := by omega
  generalize Quoted.hexDigit (n / 16) = a at high ⊢
  generalize Quoted.hexDigit (n % 16) = b at low ⊢
  simp only [hexFour,zero,high,low,value]

theorem codeEscape_control {n : Nat} (control : n < 32) (rest : List Char) :
    codeEscape ('0' :: '0' :: Quoted.hexDigit (n / 16) :: Quoted.hexDigit (n % 16) ::
      rest) = .ok (Char.ofNat n,rest) := by
  have alone : isTrailing n = false ∧ isLeading n = false := by
    simp only [isTrailing,isLeading,Bool.and_eq_false_iff,decide_eq_false_iff_not]
    omega
  rw [codeEscape,hexFour_control control]
  simp only [bind,Except.bind,alone,Bool.false_eq_true,if_false]

theorem stringStep_escapeChar (c : Char) (rest : List Char) :
    stringStep (escapeChar c ++ rest) = .ok (some c,rest) := by
  have self : c = Char.ofNat c.toNat := (Char.ofNat_toNat c).symm
  have simple (d : Char) (named : simpleEscape? d = some c) (letter : d ≠ 'u') :
      stringStep ('\\' :: d :: rest) = .ok (some c,rest) := by
    simp [stringStep,escapeBody,letter,named,Except.map]
  rw [escapeChar]
  split
  · rename_i quote
    exact simple '"' (by rw [quote]; rfl) (by decide)
  split
  · rename_i backslash
    exact simple '\\' (by rw [backslash]; rfl) (by decide)
  split
  · rename_i code
    exact simple 'b' (by rw [self,code]; rfl) (by decide)
  split
  · rename_i code
    exact simple 't' (by rw [self,code]; rfl) (by decide)
  split
  · rename_i code
    exact simple 'n' (by rw [self,code]; rfl) (by decide)
  split
  · rename_i code
    exact simple 'f' (by rw [self,code]; rfl) (by decide)
  split
  · rename_i code
    exact simple 'r' (by rw [self,code]; rfl) (by decide)
  split
  · rename_i control
    have read := codeEscape_control control rest
    rw [←self] at read
    simp [stringStep,escapeBody,escapeControl,read,Except.map]
  · rename_i quote backslash _ _ _ _ _ control
    simp [stringStep,quote,backslash,control]

theorem stringChars_escaped (cs read rest : List Char) :
    stringChars read (cs.flatMap escapeChar ++ '"' :: rest) = .ok (read.reverse ++ cs,rest) := by
  induction cs generalizing read with
  | nil =>
    have closed : stringStep ('"' :: rest) = .ok (none,rest) := rfl
    rw [List.flatMap_nil,List.nil_append,stringChars,closed,List.append_nil]
  | cons c cs ih =>
    rw [List.flatMap_cons,List.append_assoc,stringChars,stringStep_escapeChar]
    dsimp only
    rw [ih]
    simp

theorem stringBody_escaped (s : String) (rest : List Char) :
    stringBody (s.toList.flatMap escapeChar ++ '"' :: rest) = .ok (s,rest) := by
  rw [stringBody,stringChars_escaped]
  simp [bind,Except.bind]

-- Text that ends the digits of an integer and does not go on with a fraction or an exponent.
def endsInteger : List Char → Bool
  | [] => true
  | c :: _ => !Numeral.isDigit c && c != '.' && !isExponentMark c

theorem endsInteger_cons {c : Char} {s : List Char} : endsInteger (c :: s) = true ↔
    Numeral.isDigit c = false ∧ c ≠ '.' ∧ isExponentMark c = false := by
  simp [endsInteger,and_assoc]

theorem startsWithDigit_ends {rest : List Char} (ends : endsInteger rest = true) :
    startsWithDigit rest = false := by
  cases rest with
  | nil => rfl
  | cons c rest => exact (endsInteger_cons.mp ends).1

theorem significand_ofNat {n d : Nat} {tail : List Char} (written : Numeral.ofNat n = digit d :: tail)
    (digits : d < 10) (bounded : n ≤ greatestSignificand) (taken : Nat) (rest : List Char) :
    significand d taken (tail ++ rest) = significand n (taken + tail.length) rest := by
  induction n using Numeral.ofNat.induct generalizing tail rest with
  | case1 n single =>
    rw [Numeral.ofNat,if_pos single] at written
    obtain ⟨same,rfl⟩ := List.cons.inj written
    have value := congrArg digitValue? same
    rw [digitValue?_digit single,digitValue?_digit digits] at value
    rw [Option.some.inj value]
    rfl
  | case2 n several ih =>
    obtain ⟨e,front,high,_⟩ := ofNat_head (n / 10)
    have last : n % 10 < 10 := Nat.mod_lt n (by decide)
    have whole : n / 10 * 10 + n % 10 = n := Nat.div_add_mod' n 10
    rw [Numeral.ofNat,if_neg several,high,List.cons_append] at written
    obtain ⟨same,rfl⟩ := List.cons.inj written
    rw [same] at high
    rw [List.append_assoc,ih high (by omega),List.cons_append,significand,digitValue?_digit last]
    simp only [whole,if_pos bounded,List.nil_append,List.length_append,List.length_cons,
      List.length_nil,Nat.add_assoc]

theorem unsigned_ofNat {n : Nat} (bounded : n ≤ greatestSignificand) (negative : Bool)
    {rest : List Char} (ends : endsInteger rest = true) :
    unsigned negative (Numeral.ofNat n ++ rest) = integerOf negative n rest := by
  have stops := startsWithDigit_ends ends
  have after (m : Nat) : afterInteger negative m rest = integerOf negative m rest := by
    unfold afterInteger
    split
    · exact absurd rfl (endsInteger_cons.mp ends).2.1
    · rename_i c rest _
      rw [(endsInteger_cons.mp ends).2.2]
      rfl
    · rfl
  have read (m taken : Nat) : significand m taken rest = (m,taken,rest) := by
    cases rest with
    | nil => rfl
    | cons c rest =>
      have none : digitValue? c = none := by
        simpa [startsWithDigit,Numeral.isDigit] using stops
      rw [significand,none]
  obtain ⟨d,tail,written,digits,zero⟩ := ofNat_head n
  rw [written,List.cons_append,unsigned,digitValue?_digit digits]
  split
  · rename_i none; cases none
  · rename_i first
    obtain ⟨rfl,rfl⟩ := zero (Option.some.inj first)
    rw [List.nil_append,stops]
    exact after 0
  · rename_i e _ first
    cases first
    rw [significand_ofNat written digits bounded,read]
    dsimp only
    rw [stops]
    exact after n

theorem number_ofInt {i : Int} (least : -2 ^ 63 ≤ i) (bound : i < 2 ^ 64) {rest : List Char}
    (ends : endsInteger rest = true) : number (Numeral.ofInt i ++ rest) = .ok (.integer i,rest) := by
  rw [Numeral.ofInt]
  split
  · rename_i negative
    have small : i.natAbs ≤ greatestSignificand := by simp only [greatestSignificand]; omega
    have exact : (i.natAbs ≠ 0 && i.natAbs ≤ 2 ^ 63) = true := by
      rw [Bool.and_eq_true,decide_eq_true_eq,decide_eq_true_eq]
      omega
    have value : -(i.natAbs : Int) = i := by omega
    rw [List.cons_append,number,unsigned_ofNat small true ends,integerOf,
      if_neg (by decide),if_pos exact,value]
  · rename_i positive
    have small : i.natAbs ≤ greatestSignificand := by simp only [greatestSignificand]; omega
    have value : (i.natAbs : Int) = i := by omega
    obtain ⟨d,tail,written,digits,_⟩ := ofNat_head i.natAbs
    have unsigned_ : digit d ≠ '-' := by
      have all : ∀ d < 10, digit d ≠ '-' := by decide
      exact all d digits
    have read := unsigned_ofNat small false ends
    rw [written,List.cons_append] at read ⊢
    unfold number
    split
    · rename_i signed
      exact absurd (List.cons.inj signed).1 unsigned_
    · rw [read]
      simp [integerOf,value]

end TableView.Json.Scan
