import TableView.Text.Blank
import TableView.Text.LowerCase
import TableView.Text.Script

namespace TableView

inductive CharProperty where
  | anyChar
  | assigned
  | blank
  | word
  | decimal
  | alphabetic
  | upperCase
  | lowerCase
  | category (of : Text.Category)
  | script (code : String)
deriving DecidableEq,Repr

def CharProperty.holds (c : Char) : CharProperty → Bool
  | anyChar => true
  | assigned => Text.Category.ofChar c ≠ .unassigned
  | blank => Text.isBlank c
  | word => Text.isWordChar c
  | decimal => Text.isDecimalDigit c
  | alphabetic => Text.isAlphabetic c
  | upperCase => Text.isUpperCase c
  | lowerCase => Text.isLowerCase c
  | category k => Text.Category.ofChar c = k
  | script code => Text.Script.ofChar c = code

inductive CharClass where
  | nothing
  | range (first last : Nat)
  | having (property : CharProperty)
  | union (a b : CharClass)
  | meet (a b : CharClass)
  | negated (a : CharClass)
  | anyCase (a : CharClass)
deriving DecidableEq,Repr

namespace CharClass

def contains (c : Char) : CharClass → Bool
  | nothing => false
  | range first last => first ≤ c.toNat && c.toNat ≤ last
  | having p => p.holds c
  | union a b => a.contains c || b.contains c
  | meet a b => a.contains c && b.contains c
  | negated a => !a.contains c
  | anyCase a => (Text.CaseFold.variants c).any (fun d => contains d a)

def single (c : Char) : CharClass := range c.toNat c.toNat

def between (a b : Char) : CharClass := range a.toNat b.toNat

def ofList : List CharClass → CharClass
  | [] => nothing
  | a :: rest => rest.foldl union a

def without (a b : CharClass) : CharClass := meet a (negated b)

def eitherOne (a b : CharClass) : CharClass := union (without a b) (without b a)

def digits : CharClass := between '0' '9'
def lowerLetters : CharClass := between 'a' 'z'
def upperLetters : CharClass := between 'A' 'Z'
def letters : CharClass := union lowerLetters upperLetters
def lettersAndDigits : CharClass := union letters digits
def asciiWord : CharClass := union lettersAndDigits (single '_')
def asciiBlank : CharClass := union (range 9 13) (single ' ')

def ofAsciiName? : String → Option CharClass
  | "alnum" => some lettersAndDigits
  | "alpha" => some letters
  | "ascii" => some (range 0 127)
  | "blank" => some (union (single '\t') (single ' '))
  | "cntrl" => some (union (range 0 31) (range 127 127))
  | "digit" => some digits
  | "graph" => some (between '!' '~')
  | "lower" => some lowerLetters
  | "print" => some (between ' ' '~')
  | "punct" => some (without (between '!' '~') lettersAndDigits)
  | "space" => some asciiBlank
  | "upper" => some upperLetters
  | "word" => some asciiWord
  | "xdigit" => some (ofList [digits,between 'A' 'F',between 'a' 'f'])
  | _ => none

def cost : CharClass → Nat
  | nothing => 1
  | range _ _ => 1
  | having _ => 100
  | union a b => a.cost + b.cost
  | meet a b => a.cost + b.cost
  | negated a => a.cost + 3
  | anyCase a => a.cost + 1

end CharClass

end TableView
