namespace TableView.Text

def isBlank (c : Char) : Bool :=
  let n := c.toNat
  (9 ≤ n && n ≤ 13) || n == 0x20 || n == 0x85 || n == 0xA0 || n == 0x1680 ||
  (0x2000 ≤ n && n ≤ 0x200A) || n == 0x2028 || n == 0x2029 || n == 0x202F || n == 0x205F ||
  n == 0x3000

namespace Chars

def trimStart (cs : List Char) : List Char := cs.dropWhile isBlank

def trimEnd (cs : List Char) : List Char := (cs.reverse.dropWhile isBlank).reverse

def trim (cs : List Char) : List Char := trimEnd (trimStart cs)

def allBlank (cs : List Char) : Bool := cs.all isBlank

def splitOn (sep : Char) : List Char → List (List Char)
  | [] => [[]]
  | c :: rest =>
    match splitOn sep rest with
    | [] => [[c]]
    | piece :: pieces => if c = sep then [] :: piece :: pieces else (c :: piece) :: pieces

theorem splitOn_ne_nil (sep : Char) (cs : List Char) : splitOn sep cs ≠ [] := by
  cases cs with
  | nil => simp [splitOn]
  | cons c rest => rw [splitOn]; split <;> (try split) <;> simp

def splitOnce (sep : Char) : List Char → Option (List Char × List Char)
  | [] => none
  | c :: rest =>
    if c = sep then some ([],rest)
    else (splitOnce sep rest).map (fun (before,after) => (c :: before,after))

def splitLast (sep : Char) (cs : List Char) : Option (List Char × List Char) :=
  (splitOnce sep cs.reverse).map (fun (after,before) => (before.reverse,after.reverse))

def dropReturn (line : List Char) : List Char :=
  match line.reverse with
  | '\r' :: front => front.reverse
  | _ => line

-- Only a line that was ended by a line break loses its carriage return; the empty piece
-- behind a final line break is no line.
def endLines : List (List Char) → List (List Char)
  | [] => []
  | [last] => if last.isEmpty then [] else [last]
  | line :: rest => dropReturn line :: endLines rest

def lines (cs : List Char) : List (List Char) := endLines (splitOn '\n' cs)

def dropStart? : List Char → List Char → Option (List Char)
  | [],cs => some cs
  | _ :: _,[] => none
  | s :: start,c :: cs => if s = c then dropStart? start cs else none

def occursIn (part : List Char) : List Char → Bool
  | [] => part.isEmpty
  | c :: cs => part.isPrefixOf (c :: cs) || occursIn part cs

end Chars

def trim (s : String) : String := String.ofList (Chars.trim s.toList)

def allBlank (s : String) : Bool := Chars.allBlank s.toList

def lines (s : String) : List String := (Chars.lines s.toList).map String.ofList

def dropStart? (start s : String) : Option String :=
  (Chars.dropStart? start.toList s.toList).map String.ofList

end TableView.Text
