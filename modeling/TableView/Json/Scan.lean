import TableView.Json.Fault

namespace TableView.Json.Scan

def isBlank (c : Char) : Bool := c = ' ' || c = '\n' || c = '\t' || c = '\r'

def skipBlank (s : List Char) : List Char := s.dropWhile isBlank

def word : List Char → List Char → Except Fault (List Char)
  | [],s => .ok s
  | _ :: _,[] => .error (.here .endInValue [])
  | w :: ws,c :: s => if w = c then word ws s else .error (.next .expectedWord (c :: s))

def hexValue? (c : Char) : Option Nat :=
  if '0' ≤ c ∧ c ≤ '9' then some (c.toNat - 48)
  else if 'a' ≤ c ∧ c ≤ 'f' then some (c.toNat - 87)
  else if 'A' ≤ c ∧ c ≤ 'F' then some (c.toNat - 55)
  else none

-- A wrong escape takes four bytes, whatever they are; fewer than four are the end of the text.
def hexFault (s : List Char) : Fault :=
  let bytes := Text.Utf8.length s
  if bytes < 4 then .placed .endInString 0 else .placed .badEscape (bytes - 4)

def hexFour (s : List Char) : Except Fault (Nat × List Char) :=
  match s with
  | a :: b :: c :: d :: rest =>
    match hexValue? a,hexValue? b,hexValue? c,hexValue? d with
    | some a,some b,some c,some d => .ok (((a * 16 + b) * 16 + c) * 16 + d,rest)
    | _,_,_,_ => .error (hexFault s)
  | _ => .error (hexFault s)

def isLeading (n : Nat) : Bool := 0xD800 ≤ n && n ≤ 0xDBFF

def isTrailing (n : Nat) : Bool := 0xDC00 ≤ n && n ≤ 0xDFFF

def trailingHalf (first : Nat) (s : List Char) : Except Fault (Char × List Char) :=
  match s with
  | [] => .error (.here .endInString [])
  | '\\' :: s =>
    match s with
    | [] => .error (.here .endInString [])
    | 'u' :: s => do
      let (second,rest) ← hexFour s
      if isTrailing second then
        .ok (Char.ofNat (0x10000 + (first - 0xD800) * 1024 + (second - 0xDC00)),rest)
      else .error (.here .loneSurrogate rest)
    | s => .error (.next .endOfHexEscape s)
  | s => .error (.next .endOfHexEscape s)

def codeEscape (s : List Char) : Except Fault (Char × List Char) := do
  let (first,rest) ← hexFour s
  if isTrailing first then .error (.here .loneSurrogate rest)
  else if isLeading first then trailingHalf first rest
  else .ok (Char.ofNat first,rest)

def simpleEscape? (c : Char) : Option Char :=
  if c = '"' || c = '\\' || c = '/' then some c
  else if c = 'b' then some (Char.ofNat 8)
  else if c = 'f' then some (Char.ofNat 12)
  else if c = 'n' then some '\n'
  else if c = 'r' then some '\r'
  else if c = 't' then some '\t'
  else none

def escapeBody (s : List Char) : Except Fault (Char × List Char) :=
  match s with
  | [] => .error (.here .endInString [])
  | c :: rest =>
    if c = 'u' then codeEscape rest
    else
      match simpleEscape? c with
      | some d => .ok (d,rest)
      | none => .error (.next .badEscape (c :: rest))

def stringStep (s : List Char) : Except Fault (Option Char × List Char) :=
  match s with
  | [] => .error (.here .endInString [])
  | c :: rest =>
    if c = '"' then .ok (none,rest)
    else if c = '\\' then (escapeBody rest).map (fun (d,rest) => (some d,rest))
    else if c.toNat < 32 then .error (.next .controlCharacter s)
    else .ok (some c,rest)

theorem hexFour_shrinks {s rest : List Char} {n : Nat} (h : hexFour s = .ok (n,rest)) :
    rest.length < s.length := by
  unfold hexFour at h
  split at h
  · split at h
    · simp only [Except.ok.injEq,Prod.mk.injEq] at h
      rw [←h.2]; simp only [List.length_cons]; omega
    · cases h
  · cases h

theorem trailingHalf_shrinks {first : Nat} {s rest : List Char} {c : Char}
    (h : trailingHalf first s = .ok (c,rest)) : rest.length < s.length := by
  unfold trailingHalf at h
  split at h
  · cases h
  · split at h
    · cases h
    · rename_i after
      cases four : hexFour after with
      | error f => simp [four,bind,Except.bind] at h
      | ok read =>
        have shorter := hexFour_shrinks four
        simp only [four,bind,Except.bind] at h
        split at h
        · simp only [Except.ok.injEq,Prod.mk.injEq] at h
          rw [←h.2]; simp only [List.length_cons]; omega
        · cases h
    · cases h
  · cases h

theorem codeEscape_shrinks {s rest : List Char} {c : Char} (h : codeEscape s = .ok (c,rest)) :
    rest.length < s.length := by
  unfold codeEscape at h
  cases four : hexFour s with
  | error f => simp [four,bind,Except.bind] at h
  | ok read =>
    have shorter := hexFour_shrinks four
    simp only [four,bind,Except.bind] at h
    split at h
    · cases h
    · split at h
      · exact Nat.lt_trans (trailingHalf_shrinks h) shorter
      · cases h; exact shorter

theorem escapeBody_shrinks {s rest : List Char} {c : Char} (h : escapeBody s = .ok (c,rest)) :
    rest.length < s.length := by
  unfold escapeBody at h
  split at h
  · cases h
  · split at h
    · exact Nat.lt_succ_of_lt (codeEscape_shrinks h)
    · split at h
      · cases h; exact Nat.lt_succ_self _
      · cases h

theorem stringStep_shrinks {s rest : List Char} {step : Option Char}
    (h : stringStep s = .ok (step,rest)) : rest.length < s.length := by
  unfold stringStep at h
  split at h
  · cases h
  · rename_i after
    split at h
    · cases h; exact Nat.lt_succ_self _
    · split at h
      · cases escaped : escapeBody after with
        | error f => simp [escaped,Except.map] at h
        | ok read =>
          simp only [escaped,Except.map] at h
          cases h
          exact Nat.lt_succ_of_lt (escapeBody_shrinks escaped)
      · split at h
        · cases h
        · cases h; exact Nat.lt_succ_self _

def stringChars (read s : List Char) : Except Fault (List Char × List Char) :=
  match _h : stringStep s with
  | .error f => .error f
  | .ok (none,rest) => .ok (read.reverse,rest)
  | .ok (some c,rest) => stringChars (c :: read) rest
termination_by s.length
decreasing_by exact stringStep_shrinks _h

def stringBody (s : List Char) : Except Fault (String × List Char) := do
  let (cs,rest) ← stringChars [] s
  .ok (String.ofList cs,rest)

def startsWithDigit : List Char → Bool
  | c :: _ => Text.Numeral.isDigit c
  | [] => false

def dropDigits (s : List Char) : List Char := s.dropWhile Text.Numeral.isDigit

def greatestSignificand : Nat := 2 ^ 64 - 1

-- Digits are read onto a significand while it stays within 64 bits; counts the digits taken.
def significand : Nat → Nat → List Char → Nat × Nat × List Char
  | value,taken,[] => (value,taken,[])
  | value,taken,c :: rest =>
    match Text.Numeral.digitValue? c with
    | some d =>
      if value * 10 + d ≤ greatestSignificand then significand (value * 10 + d) (taken + 1) rest
      else (value,taken,c :: rest)
    | none => (value,taken,c :: rest)

def realOf (negative : Bool) (digits : Nat) (exponent : Int) (rest : List Char) :
    Except Fault (Number × List Char) :=
  let exponent := max (-2147483648) (min 2147483647 exponent)
  match TableView.Number.Binary64.ofDecimal? negative digits exponent with
  | some x => .ok (.real x,rest)
  | none => .error (.here .numberOutOfRange rest)

-- The digits of an exponent; none when they exceed 31 bits, with the text behind the digit
-- that did so.
def exponentDigits : Nat → List Char → Option Nat × List Char
  | value,[] => (some value,[])
  | value,c :: rest =>
    match Text.Numeral.digitValue? c with
    | some d =>
      if value * 10 + d ≤ 2147483647 then exponentDigits (value * 10 + d) rest
      else (none,rest)
    | none => (some value,c :: rest)

def exponentSign : List Char → Bool × List Char
  | '+' :: s => (false,s)
  | '-' :: s => (true,s)
  | s => (false,s)

def exponentPart (negative : Bool) (digits : Nat) (start : Int) (s : List Char) :
    Except Fault (Number × List Char) :=
  let (down,s) := exponentSign s
  match s with
  | [] => .error (.here .endInValue [])
  | c :: rest =>
    match Text.Numeral.digitValue? c with
    | none => .error (.next .badNumber s)
    | some d =>
      match exponentDigits d rest with
      | (some e,rest) => realOf negative digits (if down then start - e else start + e) rest
      | (none,rest) =>
        if digits ≠ 0 && !down then .error (.here .numberOutOfRange rest)
        else .ok (.real { TableView.Number.Binary64.zero with negative := negative },
          dropDigits rest)

def isExponentMark (c : Char) : Bool := c = 'e' || c = 'E'

def afterFraction (negative : Bool) (digits : Nat) (exponent : Int) (s : List Char) :
    Except Fault (Number × List Char) :=
  match s with
  | c :: rest =>
    if isExponentMark c then exponentPart negative digits exponent rest
    else realOf negative digits exponent s
  | [] => realOf negative digits exponent s

-- The fraction behind its point. Digits beyond the significand are dropped.
def fractionPart (negative : Bool) (digits : Nat) (exponent : Int) (s : List Char) :
    Except Fault (Number × List Char) :=
  let (digits,taken,rest) := significand digits 0 s
  if startsWithDigit rest then
    afterFraction negative digits (exponent - taken) (dropDigits rest)
  else if taken = 0 then
    match rest with
    | [] => .error (.next .endInValue [])
    | _ => .error (.next .badNumber rest)
  else afterFraction negative digits (exponent - taken) rest

-- An integer as it is when it fits into 64 bits; zero with a minus sign does not.
def integerOf (negative : Bool) (digits : Nat) (rest : List Char) :
    Except Fault (Number × List Char) :=
  if !negative then .ok (.integer digits,rest)
  else if digits ≠ 0 && digits ≤ 2 ^ 63 then .ok (.integer (-(digits : Int)),rest)
  else realOf true digits 0 rest

def afterInteger (negative : Bool) (digits : Nat) (s : List Char) :
    Except Fault (Number × List Char) :=
  match s with
  | '.' :: rest => fractionPart negative digits 0 rest
  | c :: rest =>
    if isExponentMark c then exponentPart negative digits 0 rest
    else integerOf negative digits s
  | [] => integerOf negative digits s

-- An integer part of more digits than fit; each further one counts ten times.
def longInteger (negative : Bool) (digits : Nat) (s : List Char) :
    Except Fault (Number × List Char) :=
  let rest := dropDigits s
  let exponent : Int := s.length - rest.length
  match rest with
  | '.' :: rest => fractionPart negative digits exponent rest
  | _ => afterFraction negative digits exponent rest

def unsigned (negative : Bool) (s : List Char) : Except Fault (Number × List Char) :=
  match s with
  | [] => .error (.here .endInValue [])
  | c :: rest =>
    match Text.Numeral.digitValue? c with
    | none => .error (.next .badNumber s)
    | some 0 =>
      if startsWithDigit rest then .error (.next .badNumber rest)
      else afterInteger negative 0 rest
    | some d =>
      let (digits,_,rest) := significand d 0 rest
      if startsWithDigit rest then longInteger negative digits rest
      else afterInteger negative digits rest

def number (s : List Char) : Except Fault (Number × List Char) :=
  match s with
  | '-' :: rest => unsigned true rest
  | _ => unsigned false s

def startsNumber (c : Char) : Bool := c = '-' || Text.Numeral.isDigit c

def number? (s : List Char) : Option Number :=
  match s with
  | [] => none
  | c :: _ =>
    if startsNumber c then
      match number s with
      | .ok (n,[]) => some n
      | _ => none
    else none

end TableView.Json.Scan
