import TableView.Pattern.Basic

namespace TableView.Pattern

structure Flags where
  anyCase : Bool := false
  manyLines : Bool := false
  dotTakesAll : Bool := false
  swapGreed : Bool := false
  spaced : Bool := false
  crlf : Bool := false
  unicode : Bool := true
deriving DecidableEq,Repr

namespace Reader

structure State where
  text : List Char
  flags : Flags
  names : List (List Char)

def dropSpacing : Bool → List Char → List Char
  | _,[] => []
  | true,c :: rest => dropSpacing (c ≠ '\n') rest
  | false,c :: rest =>
    if Text.isBlank c then dropSpacing false rest
    else if c = '#' then dropSpacing true rest
    else c :: rest

def skip (flags : Flags) (text : List Char) : List Char :=
  if flags.spaced then dropSpacing false text else text

def skipped (s : State) : State := { s with text := skip s.flags s.text }

inductive Sign where
  | char (c : Char)
  | among (c : CharClass)
  | place (l : Look)

def wordClass (flags : Flags) : CharClass :=
  if flags.unicode then .having .word else .asciiWord

def digitClass (flags : Flags) : CharClass :=
  if flags.unicode then .having .decimal else .digits

def blankClass (flags : Flags) : CharClass :=
  if flags.unicode then .having .blank else .asciiBlank

-- Bytes that are no characters cannot be matched.
def onlyAscii (c : CharClass) : Bool :=
  (List.range 128).all (fun i => !c.contains (Char.ofNat (128 + i)))

def allowed (flags : Flags) (c : CharClass) : Option CharClass :=
  if flags.unicode || onlyAscii c then some c else none

def folded (flags : Flags) (c : CharClass) : CharClass := if flags.anyCase then .anyCase c else c

def oneOf (flags : Flags) (c : Char) : CharClass := folded flags (.single c)

def isMeta (c : Char) : Bool := "\\.+*?()|[]\x7b\x7d^$#&-~".toList.contains c

def isEscapable (c : Char) : Bool :=
  isMeta c || (c.toNat < 128 && !c.isAlphanum && c ≠ '<' && c ≠ '>')

def hexValue? (c : Char) : Option Nat :=
  if c.isDigit then some (c.toNat - 48)
  else if 'a' ≤ c && c ≤ 'f' then some (c.toNat - 87)
  else if 'A' ≤ c && c ≤ 'F' then some (c.toNat - 55)
  else none

def charOf? (n : Nat) : Option Char := if n.isValidChar then some (Char.ofNat n) else none

def hexDigits (flags : Flags) : Nat → Nat → List Char → Option (Nat × List Char)
  | 0,v,text => some (v,text)
  | n + 1,v,text =>
    match skip flags text with
    | [] => none
    | c :: rest => (hexValue? c).bind (fun d => hexDigits flags n (v * 16 + d) rest)

def bracedHex (digits : List Char) : List Char → Option (Nat × List Char)
  | [] => none
  | '}' :: rest =>
    if digits.isEmpty then none
    else ((digits.reverse.mapM hexValue?).map (·.foldl (fun v d => v * 16 + d) 0)).map
      (fun v => (v,rest))
  | c :: rest => bracedHex (c :: digits) rest

def hex (flags : Flags) (count : Nat) (text : List Char) : Option (Char × List Char) :=
  match skip flags text with
  | '{' :: rest =>
    (bracedHex [] rest).bind (fun (v,rest) => (charOf? v).map (fun c => (c,rest)))
  | text =>
    (hexDigits flags count 0 text).bind (fun (v,rest) => (charOf? v).map (fun c => (c,rest)))

open Text.Category in
def categories? : String → Option (List Text.Category)
  | "lu" | "uppercaseletter" => some [uppercaseLetter]
  | "ll" | "lowercaseletter" => some [lowercaseLetter]
  | "lt" | "titlecaseletter" => some [titlecaseLetter]
  | "lm" | "modifierletter" => some [modifierLetter]
  | "lo" | "otherletter" => some [otherLetter]
  | "lc" | "casedletter" => some [uppercaseLetter,lowercaseLetter,titlecaseLetter]
  | "l" | "letter" =>
    some [uppercaseLetter,lowercaseLetter,titlecaseLetter,modifierLetter,otherLetter]
  | "mn" | "nonspacingmark" => some [nonspacingMark]
  | "mc" | "spacingmark" => some [spacingMark]
  | "me" | "enclosingmark" => some [enclosingMark]
  | "m" | "mark" | "combiningmark" => some [nonspacingMark,spacingMark,enclosingMark]
  | "nd" | "decimalnumber" | "digit" => some [decimalNumber]
  | "nl" | "letternumber" => some [letterNumber]
  | "no" | "othernumber" => some [otherNumber]
  | "n" | "number" => some [decimalNumber,letterNumber,otherNumber]
  | "pc" | "connectorpunctuation" => some [connectorPunctuation]
  | "pd" | "dashpunctuation" => some [dashPunctuation]
  | "ps" | "openpunctuation" => some [openPunctuation]
  | "pe" | "closepunctuation" => some [closePunctuation]
  | "pi" | "initialpunctuation" => some [initialPunctuation]
  | "pf" | "finalpunctuation" => some [finalPunctuation]
  | "po" | "otherpunctuation" => some [otherPunctuation]
  | "p" | "punctuation" | "punct" =>
    some [connectorPunctuation,dashPunctuation,openPunctuation,closePunctuation,
      initialPunctuation,finalPunctuation,otherPunctuation]
  | "sm" | "mathsymbol" => some [mathSymbol]
  | "sc" | "currencysymbol" => some [currencySymbol]
  | "sk" | "modifiersymbol" => some [modifierSymbol]
  | "so" | "othersymbol" => some [otherSymbol]
  | "s" | "symbol" => some [mathSymbol,currencySymbol,modifierSymbol,otherSymbol]
  | "zs" | "spaceseparator" => some [spaceSeparator]
  | "zl" | "lineseparator" => some [lineSeparator]
  | "zp" | "paragraphseparator" => some [paragraphSeparator]
  | "z" | "separator" => some [spaceSeparator,lineSeparator,paragraphSeparator]
  | "cc" | "control" | "cntrl" => some [control]
  | "cf" | "format" => some [format]
  | "co" | "privateuse" => some [privateUse]
  | "cn" | "unassigned" => some [unassigned]
  | "c" | "other" => some [control,format,privateUse,unassigned]
  | _ => none

def ofCategories (ks : List Text.Category) : CharClass :=
  .ofList (ks.map (fun k => .having (.category k)))

def scriptClass? (name : String) : Option CharClass :=
  (Text.Script.ofName? name).map (fun code => .having (.script code))

-- The class of a property, by its name without blanks, underscores, hyphens and case.
def propertyClass? (name : String) : Option CharClass :=
  match name with
  | "any" => some (.having .anyChar)
  | "assigned" => some (.having .assigned)
  | "ascii" => some (.range 0 127)
  | "whitespace" | "wspace" | "space" => some (.having .blank)
  | "alphabetic" | "alpha" => some (.having .alphabetic)
  | "uppercase" | "upper" => some (.having .upperCase)
  | "lowercase" | "lower" => some (.having .lowerCase)
  | _ => ((categories? name).map ofCategories).or (scriptClass? name)

def looseName (cs : List Char) : String :=
  let cs := (cs.filter (fun c => c ≠ ' ' && c ≠ '_' && c ≠ '-')).map Char.toLower
  match cs with
  | ['i','s','c'] => "isc"
  | 'i' :: 's' :: rest => String.ofList rest
  | _ => String.ofList cs

def valueClass? (name value : List Char) : Option CharClass :=
  match looseName name with
  | "gc" | "generalcategory" =>
    if looseName value = "any" || looseName value = "assigned" || looseName value = "ascii" then
      propertyClass? (looseName value)
    else (categories? (looseName value)).map ofCategories
  | "sc" | "script" => scriptClass? (looseName value)
  | _ => none

def namedClass? (name : List Char) : Option (Bool × CharClass) :=
  match Text.Chars.splitOnce '=' name with
  | some (key,value) =>
    match key.reverse with
    | '!' :: key => (valueClass? key.reverse value).map (fun c => (true,c))
    | _ => (valueClass? key value).map (fun c => (false,c))
  | none =>
    match Text.Chars.splitOnce ':' name with
    | some (key,value) => (valueClass? key value).map (fun c => (false,c))
    | none =>
      match name with
      | '^' :: name => (propertyClass? (looseName name)).map (fun c => (true,c))
      | _ => (propertyClass? (looseName name)).map (fun c => (false,c))

def property (flags : Flags) (negative : Bool) (text : List Char) :
    Option (CharClass × List Char) := do
  let (name,rest) ← match skip flags text with
    | '{' :: rest => Text.Chars.splitOnce '}' rest
    | '\\' :: _ => none
    | c :: rest => some ([c],rest)
    | [] => none
  let (opposite,c) ← namedClass? name
  let c := folded flags c
  if flags.unicode then some (if negative ≠ opposite then .negated c else c,rest) else none

def isEdgeNameChar (c : Char) : Bool := c.isAlpha || c = '-'

def wordEdge (flags : Flags) (text : List Char) : Option (Look × List Char) :=
  let word := wordClass flags
  match text with
  | '{' :: rest =>
    match skip flags rest with
    | [] => none
    | c :: _ =>
      if !isEdgeNameChar c then some (.wordEdge word,text)
      else
        (Text.Chars.splitOnce '}' (skip flags rest)).bind (fun (name,after) =>
          match String.ofList name with
          | "start" => some (.wordStart word,after)
          | "end" => some (.wordEnd word,after)
          | "start-half" => some (.noWordBefore word,after)
          | "end-half" => some (.noWordAfter word,after)
          | _ => none)
  | _ => some (.wordEdge word,text)

def escape (flags : Flags) : List Char → Option (Sign × List Char)
  | [] => none
  | c :: rest =>
    let char (c : Char) : Option (Sign × List Char) := some (.char c,rest)
    let class_ (negative : Bool) (k : CharClass) : Option (Sign × List Char) :=
      some (.among (if negative then .negated k else k),rest)
    let place (l : Look) : Option (Sign × List Char) := some (.place l,rest)
    match c with
    | 'x' => (hex flags 2 rest).map (fun (c,rest) => (.char c,rest))
    | 'u' => (hex flags 4 rest).map (fun (c,rest) => (.char c,rest))
    | 'U' => (hex flags 8 rest).map (fun (c,rest) => (.char c,rest))
    | 'p' => (property flags false rest).map (fun (k,rest) => (.among k,rest))
    | 'P' => (property flags true rest).map (fun (k,rest) => (.among k,rest))
    | 'd' => class_ false (digitClass flags)
    | 'D' => class_ true (digitClass flags)
    | 's' => class_ false (blankClass flags)
    | 'S' => class_ true (blankClass flags)
    | 'w' => class_ false (wordClass flags)
    | 'W' => class_ true (wordClass flags)
    | 'a' => char '\x07'
    | 'f' => char '\x0c'
    | 't' => char '\t'
    | 'n' => char '\n'
    | 'r' => char '\r'
    | 'v' => char '\x0b'
    | 'A' => place .textStart
    | 'z' => place .textEnd
    | 'b' => (wordEdge flags rest).map (fun (l,rest) => (.place l,rest))
    | 'B' => place (.noWordEdge (wordClass flags))
    | '<' => place (.wordStart (wordClass flags))
    | '>' => place (.wordEnd (wordClass flags))
    | _ => if isEscapable c then char c else none

def asciiClass? (flags : Flags) (text : List Char) : Option (CharClass × List Char) :=
  match text with
  | '[' :: ':' :: rest =>
    let (negative,rest) := match rest with
      | '^' :: rest => (true,rest)
      | _ => (false,rest)
    match Text.Chars.splitOnce ':' rest with
    | some (name,']' :: rest) =>
      (CharClass.ofAsciiName? (String.ofList name)).map (fun c =>
        let c := folded flags c
        (if negative then .negated c else c,rest))
    | _ => none
  | _ => none

inductive SetOperation where
  | intersection
  | difference
  | symmetricDifference

def SetOperation.apply (a b : CharClass) : SetOperation → CharClass
  | intersection => .meet a b
  | difference => .without a b
  | symmetricDifference => .eitherOne a b

def classSign (flags : Flags) : List Char → Option (Sign × List Char)
  | [] => none
  | '\\' :: rest => escape flags rest
  | c :: rest => some (.char c,rest)

def Sign.toClass? (flags : Flags) : Sign → Option CharClass
  | char c => if flags.unicode || c.toNat < 128 then some (oneOf flags c) else none
  | among c => some c
  | place _ => none

-- A member or a range of members. A hyphen before a bracket or another hyphen is no range.
def classRange (flags : Flags) (text : List Char) : Option (CharClass × List Char) := do
  let (first,rest) ← classSign flags text
  let single := (first.toClass? flags).map (fun c => (c,skip flags rest))
  match skip flags rest with
  | [] => none
  | '-' :: more =>
    match skip flags more with
    | [] => none
    | ']' :: _ => single
    | '-' :: _ => single
    | more => do
      let (last,rest) ← classSign flags more
      match first,last with
      | .char a,.char b =>
        if a ≤ b && (flags.unicode || b.toNat < 128) then
          some (folded flags (.between a b),skip flags rest)
        else none
      | _,_ => none
  | _ => single

structure OpenClass where
  negative : Bool
  waiting : Option (CharClass × SetOperation)
  members : CharClass

def OpenClass.value (o : OpenClass) : CharClass :=
  match o.waiting with
  | none => o.members
  | some (a,op) => op.apply a o.members

def OpenClass.add (o : OpenClass) (c : CharClass) : OpenClass :=
  { o with members := .union o.members c }

def OpenClass.operate (o : OpenClass) (op : SetOperation) : OpenClass :=
  { o with waiting := some (o.value,op),members := .nothing }

def OpenClass.close (o : OpenClass) : CharClass :=
  if o.negative then .negated o.value else o.value

def openHyphens (flags : Flags) : Nat → OpenClass → List Char → OpenClass × List Char
  | n + 1,o,'-' :: rest => openHyphens flags n (o.add (oneOf flags '-')) (skip flags rest)
  | _,o,text => (o,text)

def isNothing : CharClass → Bool
  | .nothing => true
  | _ => false

-- Behind an opening bracket: a caret negates, and hyphens or a closing bracket stand for
-- themselves when nothing comes before them.
def openClass (flags : Flags) (text : List Char) : OpenClass × List Char :=
  let text := skip flags text
  let (negative,text) := match text with
    | '^' :: rest => (true,skip flags rest)
    | _ => (false,text)
  let (o,text) := openHyphens flags text.length ⟨negative,none,.nothing⟩ text
  match text with
  | ']' :: rest => if isNothing o.members then (o.add (oneOf flags ']'),rest) else (o,text)
  | _ => (o,text)

def nestLimit : Nat := 250

def classMembers (flags : Flags) : Nat → OpenClass → List OpenClass → List Char →
    Option (CharClass × List Char)
  | 0,_,_,_ => none
  | fuel + 1,o,outer,text =>
    match skip flags text with
    | [] => none
    | '[' :: rest =>
      match asciiClass? flags ('[' :: rest) with
      | some (c,rest) => classMembers flags fuel (o.add c) outer rest
      | none =>
        let (inner,rest) := openClass flags rest
        if nestLimit ≤ outer.length + 1 then none
        else classMembers flags fuel inner (o :: outer) rest
    | ']' :: rest =>
      match outer with
      | [] => some (o.close,rest)
      | p :: outer => classMembers flags fuel (p.add o.close) outer rest
    | '&' :: '&' :: rest => classMembers flags fuel (o.operate .intersection) outer rest
    | '-' :: '-' :: rest => classMembers flags fuel (o.operate .difference) outer rest
    | '~' :: '~' :: rest => classMembers flags fuel (o.operate .symmetricDifference) outer rest
    | text => do
      let (c,rest) ← classRange flags text
      classMembers flags fuel (o.add c) outer rest

def bracketClass (flags : Flags) (text : List Char) : Option (CharClass × List Char) := do
  let (o,rest) := openClass flags text
  let (c,rest) ← classMembers flags (rest.length + 1) o [] rest
  (allowed flags c).map (fun c => (c,rest))

def countDigits (flags : Flags) : List Char → List Char × List Char
  | [] => ([],[])
  | c :: rest =>
    if c.isDigit then
      let (digits,rest) := countDigits flags rest
      (c :: digits,rest)
    else if flags.spaced && Text.isBlank c then countDigits flags rest
    else ([],c :: rest)

def countLimit : Nat := 2 ^ 32

def count (flags : Flags) (text : List Char) : Option (Nat × List Char) :=
  let (digits,rest) := countDigits flags (Text.Chars.trimStart text)
  let n := digits.foldl (fun v c => v * 10 + (c.toNat - 48)) 0
  if digits.isEmpty || countLimit ≤ n then none else some (n,Text.Chars.trimStart rest)

def bounds (flags : Flags) (text : List Char) : Option ((Nat × Option Nat) × List Char) := do
  let (least,rest) ← count flags (skip flags text)
  match rest with
  | '}' :: rest => some ((least,some least),rest)
  | ',' :: rest =>
    match skip flags rest with
    | '}' :: rest => some ((least,none),rest)
    | rest => do
      let (most,rest) ← count flags rest
      match rest with
      | '}' :: rest => if least ≤ most then some ((least,some most),rest) else none
      | _ => none
  | _ => none

def readFlags (seen : List Char) (negative dangling : Bool) (flags : Flags) :
    List Char → Option (Flags × Char × List Char)
  | [] => none
  | c :: rest =>
    if c = ':' || c = ')' then if dangling then none else some (flags,c,rest)
    else if c = '-' then if negative then none else readFlags seen true true flags rest
    else if seen.contains c then none
    else
      let on := !negative
      let next (flags : Flags) := readFlags (c :: seen) negative false flags rest
      match c with
      | 'i' => next { flags with anyCase := on }
      | 'm' => next { flags with manyLines := on }
      | 's' => next { flags with dotTakesAll := on }
      | 'U' => next { flags with swapGreed := on }
      | 'x' => next { flags with spaced := on }
      | 'R' => next { flags with crlf := on }
      | 'u' => next { flags with unicode := on }
      | _ => none

def isNameStart (c : Char) : Bool := c = '_' || Text.isAlphabetic c

def isNameChar (c : Char) : Bool :=
  isNameStart c || c = '.' || c = '[' || c = ']' || Text.isNumeric c

def groupName (names : List (List Char)) (text : List Char) : Option (List Char × List Char) :=
  match Text.Chars.splitOnce '>' text with
  | some (c :: name,rest) =>
    if isNameStart c && name.all isNameChar && !names.contains (c :: name) then
      some (c :: name,rest)
    else none
  | _ => none

-- A pattern with the depth of its nesting; setting flags is a part without a pattern.
structure Part where
  pattern : Pattern
  depth : Nat

def lookSign (s : State) (l : Look) (rest : List Char) : Option (Part × State) :=
  some (⟨.look l,0⟩,{ s with text := rest })

def classPart (s : State) (c : CharClass) (depth : Nat) (rest : List Char) :
    Option (Part × State) :=
  (allowed s.flags c).map (fun c => (⟨.one c,depth⟩,{ s with text := rest }))

def dotClass (flags : Flags) : CharClass :=
  if flags.dotTakesAll then .having .anyChar
  else if flags.crlf then .negated (.union (.single '\n') (.single '\r'))
  else .negated (.single '\n')

def single (s : State) : Option (Part × State) :=
  match s.text with
  | [] => none
  | '.' :: rest => classPart s (dotClass s.flags) 0 rest
  | '^' :: rest =>
    lookSign s (if s.flags.manyLines then .lineStart s.flags.crlf else .textStart) rest
  | '$' :: rest =>
    lookSign s (if s.flags.manyLines then .lineEnd s.flags.crlf else .textEnd) rest
  | '[' :: rest => (bracketClass s.flags rest).bind (fun (c,rest) => classPart s c 1 rest)
  | '\\' :: rest => do
    let (sign,rest) ← escape s.flags rest
    match sign with
    | .char c => some (⟨.one (oneOf s.flags c),0⟩,{ s with text := rest })
    | .among c => classPart s c 0 rest
    | .place l => lookSign s l rest
  | c :: rest => some (⟨.one (oneOf s.flags c),0⟩,{ s with text := rest })

def ofParts : List Part → Part
  | [] => ⟨.empty,0⟩
  | [p] => p
  | p :: rest =>
    let q := ofParts rest
    ⟨.seq p.pattern q.pattern,max p.depth q.depth⟩

def branchOf (parts : List (Option Part)) : Part :=
  let parts := (parts.filterMap id).reverse
  let p := ofParts parts
  if 2 ≤ parts.length then ⟨p.pattern,p.depth + 1⟩ else p

def eitherOf : List Part → Part
  | [] => ⟨.empty,0⟩
  | [p] => p
  | p :: rest =>
    let q := eitherOf rest
    ⟨.either p.pattern q.pattern,max p.depth q.depth⟩

def choiceOf (branches : List Part) : Part :=
  let p := eitherOf branches.reverse
  if 2 ≤ branches.length then ⟨p.pattern,p.depth + 1⟩ else p

-- Repeats the last part, unless there is none or it only sets flags. A question mark behind
-- the repetition makes it stop as soon as possible.
def repeatLast (s : State) (parts : List (Option Part)) (least : Nat) (most : Option Nat)
    (rest : List Char) : Option (List (Option Part) × State) :=
  match parts with
  | some p :: parts =>
    let (greedy,rest) := match rest with
      | '?' :: rest => (false,rest)
      | _ => (true,rest)
    let p := ⟨.repeated p.pattern least most (greedy ≠ s.flags.swapGreed),p.depth + 1⟩
    if nestLimit < p.depth then none else some (some p :: parts,{ s with text := rest })
  | _ => none

inductive GroupStart where
  | flagsOnly (flags : Flags)
  | opened (flags : Flags) (names : List (List Char))

def groupStart (s : State) : Option (GroupStart × List Char) :=
  match skip s.flags s.text with
  | '?' :: '=' :: _ => none
  | '?' :: '!' :: _ => none
  | '?' :: '<' :: '=' :: _ => none
  | '?' :: '<' :: '!' :: _ => none
  | '?' :: 'P' :: '<' :: rest =>
    (groupName s.names rest).map (fun (n,rest) => (.opened s.flags (n :: s.names),rest))
  | '?' :: '<' :: rest =>
    (groupName s.names rest).map (fun (n,rest) => (.opened s.flags (n :: s.names),rest))
  | '?' :: ')' :: _ => none
  | '?' :: rest =>
    (readFlags [] false false s.flags rest).map (fun (flags,c,rest) =>
      (if c = ')' then .flagsOnly flags else .opened flags s.names,rest))
  | rest => some (.opened s.flags s.names,rest)

-- Branches up to the end of the text or to a closing parenthesis. The parts of the branch and
-- the branches before it are given in reverse; the fuel bounds the steps.
def choices : Nat → List (Option Part) → List Part → State → Option (Part × State)
  | 0,_,_,_ => none
  | fuel + 1,parts,branches,s =>
    let s := skipped s
    let finish := choiceOf (branchOf parts :: branches)
    match s.text with
    | [] => some (finish,s)
    | ')' :: _ => some (finish,s)
    | '|' :: rest => choices fuel [] (branchOf parts :: branches) { s with text := rest }
    | '(' :: rest => do
      let (start,rest) ← groupStart { s with text := rest }
      match start with
      | .flagsOnly flags =>
        choices fuel (none :: parts) branches { s with text := rest,flags := flags }
      | .opened flags names =>
        let (p,t) ← choices fuel [] [] ⟨rest,flags,names⟩
        match t.text with
        | ')' :: rest =>
          let parts := some ⟨p.pattern,p.depth + 1⟩ :: parts
          if nestLimit ≤ p.depth then none
          else choices fuel parts branches ⟨rest,s.flags,t.names⟩
        | _ => none
    | '?' :: rest => do
      let (parts,s) ← repeatLast s parts 0 (some 1) rest
      choices fuel parts branches s
    | '*' :: rest => do
      let (parts,s) ← repeatLast s parts 0 none rest
      choices fuel parts branches s
    | '+' :: rest => do
      let (parts,s) ← repeatLast s parts 1 none rest
      choices fuel parts branches s
    | '{' :: rest => do
      let ((least,most),rest) ← bounds s.flags rest
      let (parts,s) ← repeatLast s parts least most (skip s.flags rest)
      choices fuel parts branches s
    | _ => do
      let (p,s) ← single s
      choices fuel (some p :: parts) branches s

end Reader

def costLimit : Nat := 327680

def ofChars? (text : List Char) : Option Pattern := do
  let (p,s) ← Reader.choices (text.length + 1) [] [] ⟨text,{},[]⟩
  if s.text.isEmpty && p.depth ≤ Reader.nestLimit && p.pattern.cost ≤ costLimit then
    some p.pattern
  else none

def ofString? (text : String) : Option Pattern := ofChars? text.toList

end TableView.Pattern
