namespace TableView.Text.Utf8

def encodeChar (c : Char) : List UInt8 :=
  let n := c.toNat
  if n < 0x80 then [n.toUInt8]
  else if n < 0x800 then [(0xC0 + n / 64).toUInt8,(0x80 + n % 64).toUInt8]
  else if n < 0x10000 then
    [(0xE0 + n / 4096).toUInt8,(0x80 + n / 64 % 64).toUInt8,(0x80 + n % 64).toUInt8]
  else
    [(0xF0 + n / 262144).toUInt8,(0x80 + n / 4096 % 64).toUInt8,
      (0x80 + n / 64 % 64).toUInt8,(0x80 + n % 64).toUInt8]

def encode (cs : List Char) : List UInt8 := cs.flatMap encodeChar

def ofString (s : String) : List UInt8 := encode s.toList

def width (c : Char) : Nat :=
  let n := c.toNat
  if n < 0x80 then 1 else if n < 0x800 then 2 else if n < 0x10000 then 3 else 4

def length (cs : List Char) : Nat := (cs.map width).foldr (· + ·) 0

structure Fault where
  valid : Nat
  -- Bytes of the impossible sequence; none when the text ends inside a character.
  taken : Option Nat
deriving DecidableEq,Repr

def Fault.message (f : Fault) : String :=
  match f.taken with
  | some n => s!"invalid utf-8 sequence of {n} bytes from index {f.valid}"
  | none => s!"incomplete utf-8 byte sequence from index {f.valid}"

inductive Step where
  | char (c : Char) (rest : List UInt8)
  | broken (taken : Option Nat)

def isTail (b : UInt8) : Bool := 0x80 ≤ b && b ≤ 0xBF

def low (b : UInt8) : Nat := b.toNat % 64

-- The second byte of a three-byte character: no overlong form and no surrogate.
def secondOfThree (a b : UInt8) : Bool :=
  if a == 0xE0 then 0xA0 ≤ b && b ≤ 0xBF
  else if a == 0xED then 0x80 ≤ b && b ≤ 0x9F
  else isTail b

-- The second byte of a four-byte character: no overlong form and nothing above U+10FFFF.
def secondOfFour (a b : UInt8) : Bool :=
  if a == 0xF0 then 0x90 ≤ b && b ≤ 0xBF
  else if a == 0xF4 then 0x80 ≤ b && b ≤ 0x8F
  else isTail b

def decodeTwo (a : UInt8) : List UInt8 → Step
  | [] => .broken none
  | b :: rest =>
    if isTail b then .char (Char.ofNat (a.toNat % 32 * 64 + low b)) rest
    else .broken (some 1)

def decodeThree (a : UInt8) : List UInt8 → Step
  | [] => .broken none
  | [b] => if secondOfThree a b then .broken none else .broken (some 1)
  | b :: c :: rest =>
    if !secondOfThree a b then .broken (some 1)
    else if !isTail c then .broken (some 2)
    else .char (Char.ofNat (a.toNat % 16 * 4096 + low b * 64 + low c)) rest

def decodeFour (a : UInt8) : List UInt8 → Step
  | [] => .broken none
  | [b] => if secondOfFour a b then .broken none else .broken (some 1)
  | [b,c] =>
    if !secondOfFour a b then .broken (some 1)
    else if !isTail c then .broken (some 2)
    else .broken none
  | b :: c :: d :: rest =>
    if !secondOfFour a b then .broken (some 1)
    else if !isTail c then .broken (some 2)
    else if !isTail d then .broken (some 3)
    else .char (Char.ofNat (a.toNat % 8 * 262144 + low b * 4096 + low c * 64 + low d)) rest

def decodeFront (a : UInt8) (rest : List UInt8) : Step :=
  if a < 0x80 then .char (Char.ofNat a.toNat) rest
  else if 0xC2 ≤ a && a ≤ 0xDF then decodeTwo a rest
  else if 0xE0 ≤ a && a ≤ 0xEF then decodeThree a rest
  else if 0xF0 ≤ a && a ≤ 0xF4 then decodeFour a rest
  else .broken (some 1)

def Step.left : Step → List UInt8
  | .char _ rest => rest
  | .broken _ => []

theorem decodeTwo_left (a : UInt8) (rest : List UInt8) :
    (decodeTwo a rest).left.length ≤ rest.length := by
  unfold decodeTwo; repeat' split
  all_goals simp [Step.left]

theorem decodeThree_left (a : UInt8) (rest : List UInt8) :
    (decodeThree a rest).left.length ≤ rest.length := by
  unfold decodeThree; repeat' split
  all_goals simp [Step.left,Nat.le_add_right_of_le]

theorem decodeFour_left (a : UInt8) (rest : List UInt8) :
    (decodeFour a rest).left.length ≤ rest.length := by
  unfold decodeFour; repeat' split
  all_goals simp [Step.left,Nat.le_add_right_of_le]

theorem decodeFront_left (a : UInt8) (rest : List UInt8) :
    (decodeFront a rest).left.length ≤ rest.length := by
  unfold decodeFront; repeat' split
  · exact Nat.le_refl _
  · exact decodeTwo_left a rest
  · exact decodeThree_left a rest
  · exact decodeFour_left a rest
  · exact Nat.zero_le _

theorem decodeFront_shrinks {a : UInt8} {rest after : List UInt8} {c : Char}
    (h : decodeFront a rest = .char c after) : after.length ≤ rest.length := by
  have bound := decodeFront_left a rest
  rwa [h] at bound

def decodeFrom (position : Nat) (read : List Char) : List UInt8 → Except Fault (List Char)
  | [] => .ok read.reverse
  | a :: rest =>
    match h : decodeFront a rest with
    | .char c after =>
      have := decodeFront_shrinks h
      decodeFrom (position + width c) (c :: read) after
    | .broken taken => .error ⟨position,taken⟩
termination_by bytes => bytes.length
decreasing_by simp only [List.length_cons]; omega

def decode (bytes : List UInt8) : Except Fault (List Char) := decodeFrom 0 [] bytes

def toString? (bytes : List UInt8) : Except Fault String := (decode bytes).map String.ofList

end TableView.Text.Utf8
