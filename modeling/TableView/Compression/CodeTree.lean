import TableView.Compression.Bits

namespace TableView.Compression

inductive CodeTree where
  | empty
  | leaf (symbol : Nat)
  | node (zero one : CodeTree)
deriving Inhabited,Repr

namespace CodeTree

def insert (symbol : Nat) : List Bool → CodeTree → CodeTree
  | [],.empty => .leaf symbol
  | false :: word,.empty => .node (insert symbol word .empty) .empty
  | true :: word,.empty => .node .empty (insert symbol word .empty)
  | false :: word,.node zero one => .node (insert symbol word zero) one
  | true :: word,.node zero one => .node zero (insert symbol word one)
  | _,tree => tree

def decode : CodeTree → List Bool → Option (Nat × List Bool)
  | .leaf symbol,bits => some (symbol,bits)
  | .node zero _,false :: bits => decode zero bits
  | .node _ one,true :: bits => decode one bits
  | _,_ => none

def symbolsOf (length : Nat) (lengths : List Nat) : List Nat :=
  (lengths.zipIdx.filter (fun (l,_) => l = length)).map (·.2)

def insertLength (length : Nat) : List Nat → Nat → CodeTree → Nat × CodeTree
  | [],code,tree => (code,tree)
  | symbol :: rest,code,tree =>
    if 2 ^ length ≤ code then (code,tree)
    else insertLength length rest (code + 1) (insert symbol (Bits.writeHigh length code) tree)

def insertLengths (lengths : List Nat) : Nat → Nat → Nat → CodeTree → CodeTree
  | 0,_,_,tree => tree
  | left + 1,length,code,tree =>
    let (code,tree) := insertLength length (symbolsOf length lengths) (2 * code) tree
    insertLengths lengths left (length + 1) code tree

-- The canonical code of some word lengths, where a length of zero means no word. Symbols for
-- which no word is left go without one.
def canonical (longest : Nat) (lengths : List Nat) : CodeTree :=
  insertLengths lengths longest 1 0 .empty

def fits (longest : Nat) (lengths : List Nat) : Bool :=
  ((lengths.filter (· ≠ 0)).map (fun l => 2 ^ (longest - l))).foldr (· + ·) 0 ≤ 2 ^ longest

def isComplete : CodeTree → Bool
  | .empty => false
  | .leaf _ => true
  | .node zero one => zero.isComplete && one.isComplete

end CodeTree

end TableView.Compression
