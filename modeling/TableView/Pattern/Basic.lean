import TableView.Pattern.CharClass

namespace TableView

inductive Look where
  | textStart
  | textEnd
  | lineStart (crlf : Bool)
  | lineEnd (crlf : Bool)
  | wordEdge (word : CharClass)
  | noWordEdge (word : CharClass)
  | wordStart (word : CharClass)
  | wordEnd (word : CharClass)
  | noWordBefore (word : CharClass)
  | noWordAfter (word : CharClass)
deriving DecidableEq,Repr

structure Place where
  before : Option Char
  after : Option Char
deriving DecidableEq,Repr

namespace Look

def holds (p : Place) : Look → Bool
  | textStart => p.before.isNone
  | textEnd => p.after.isNone
  | lineStart false => p.before.all (· = '\n')
  | lineStart true =>
    p.before.all (fun c => c = '\n' || (c = '\r' && p.after ≠ some '\n'))
  | lineEnd false => p.after.all (· = '\n')
  | lineEnd true =>
    p.after.all (fun c => c = '\r' || (c = '\n' && p.before ≠ some '\r'))
  | wordEdge word => p.before.any word.contains ≠ p.after.any word.contains
  | noWordEdge word => p.before.any word.contains = p.after.any word.contains
  | wordStart word => !p.before.any word.contains && p.after.any word.contains
  | wordEnd word => p.before.any word.contains && !p.after.any word.contains
  | noWordBefore word => !p.before.any word.contains
  | noWordAfter word => !p.after.any word.contains

end Look

inductive Pattern where
  | empty
  | one (of : CharClass)
  | look (place : Look)
  | seq (first second : Pattern)
  | either (first second : Pattern)
  | repeated (p : Pattern) (least : Nat) (most : Option Nat) (greedy : Bool)
deriving DecidableEq,Repr

namespace Pattern

-- A pattern is tried by its outcomes: in order of preference, what it may do with the next
-- character. The outcomes before the first passing one are preferred to ending the match here, so
-- the match that is found is the preferred one, not the longest.
inductive Outcome where
  | pass
  | take (of : CharClass) (next : List Pattern)
deriving DecidableEq,Repr

def firstPass : List Outcome → List Outcome
  | [] => []
  | .pass :: rest => .pass :: rest.filter (· ≠ .pass)
  | o :: rest => o :: firstPass rest

def andThen (next : List Pattern) (others : List Outcome) : List Outcome → List Outcome
  | [] => []
  | .pass :: rest => others ++ andThen next others rest
  | .take c first :: rest => .take c (first ++ next) :: andThen next others rest

def passes (outcomes : List Outcome) : Bool := outcomes.contains .pass

def orStop (greedy : Bool) (more : List Outcome) : List Outcome :=
  if greedy then more ++ [.pass] else .pass :: more

-- Further repetitions up to a number. One that takes no character is followed by the next one.
def upTo (p : Pattern) (greedy : Bool) (once : List Outcome) : Nat → List Outcome
  | 0 => [.pass]
  | n + 1 =>
    let others := if passes once then upTo p greedy once n else []
    orStop greedy (andThen [.repeated p 0 (some n) greedy] others once)

-- Any number of repetitions. One that takes no character is the last one.
def anyNumber (p : Pattern) (greedy : Bool) (once : List Outcome) : List Outcome :=
  orStop greedy (andThen [.repeated p 0 none greedy] [.pass] once)

def atLeast (p : Pattern) (greedy : Bool) (once : List Outcome) (most : Option Nat) :
    Nat → List Outcome
  | 0 =>
    match most with
    | some m => upTo p greedy once m
    | none => anyNumber p greedy once
  | n + 1 =>
    let most := most.map (· - 1)
    let others := if passes once then atLeast p greedy once most n else []
    andThen [.repeated p n most greedy] others once

def outcomes (place : Place) : Pattern → List Outcome
  | empty => [.pass]
  | one c => [.take c []]
  | look l => if l.holds place then [.pass] else []
  | seq a b => firstPass (andThen [b] (outcomes place b) (outcomes place a))
  | either a b => firstPass (outcomes place a ++ outcomes place b)
  | repeated p least most greedy =>
    firstPass (atLeast p greedy (outcomes place p) most least)

def rowOutcomes (place : Place) : List Pattern → List Outcome
  | [] => [.pass]
  | p :: rest => firstPass (andThen rest (rowOutcomes place rest) (outcomes place p))

def survivors : List Outcome → Bool × List (CharClass × List Pattern)
  | [] => (false,[])
  | .pass :: _ => (true,[])
  | .take c next :: rest =>
    let (ends,more) := survivors rest
    (ends,(c,next) :: more)

def advance (c : Char) (takes : List (CharClass × List Pattern)) : List (List Pattern) :=
  ((takes.filter (fun (of,_) => of.contains c)).map (·.2)).eraseDups

-- Follows rows of patterns, given in order of preference, and tells what is left of the text
-- behind the last end of a match that was preferred when it was met.
def follow (before : Option Char) (rows : List (List Pattern)) (found : Option (List Char)) :
    List Char → Option (List Char)
  | [] =>
    let (ends,_) := survivors (rows.flatMap (rowOutcomes ⟨before,none⟩))
    if ends then some [] else found
  | c :: rest =>
    let (ends,takes) := survivors (rows.flatMap (rowOutcomes ⟨before,some c⟩))
    let found := if ends then some (c :: rest) else found
    if takes.isEmpty then found else follow (some c) (advance c takes) found rest

def afterMatch (p : Pattern) (before : Option Char) (text : List Char) : Option (List Char) :=
  follow before [[p]] none text

-- The characters of the piece so far are given in reverse; `fresh` tells that a match has just
-- ended here.
def splitFrom (p : Pattern) (before : Option Char) (piece : List Char) (fresh : Bool)
    (text : List Char) : List (List Char) :=
  match afterMatch p before text with
  | some rest =>
    if _h : rest.length < text.length then
      piece.reverse :: splitFrom p (text[text.length - rest.length - 1]?) [] true rest
    else
      match text with
      | [] => if fresh then [piece.reverse] else [piece.reverse,[]]
      | c :: text =>
        if fresh then splitFrom p (some c) (c :: piece) false text
        else piece.reverse :: splitFrom p (some c) [c] false text
  | none =>
    match text with
    | [] => [piece.reverse]
    | c :: text => splitFrom p (some c) (c :: piece) false text
termination_by text.length

def split (p : Pattern) (text : List Char) : List (List Char) := splitFrom p none [] false text

def cost : Pattern → Nat
  | empty => 1
  | one c => c.cost
  | look _ => 1
  | seq a b => a.cost + b.cost
  | either a b => a.cost + b.cost + 1
  | repeated p least most _ => p.cost * max 1 (max least (most.getD 1)) + 1

end Pattern

end TableView
