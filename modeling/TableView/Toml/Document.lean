import TableView.Toml.Scan

namespace TableView.Toml

abbrev Key := List String

-- Every table and every key is defined once. Tables that only lie on the way to another one may be
-- defined later; tables made by dotted keys may be extended by further dotted keys alone.
inductive Item where
  | value (v : Json)
  | table (implied dotted : Bool) (members : List (String × Item))
  -- The tables of a list, the last one first.
  | tables (elements : List (List (String × Item)))
deriving Inhabited

abbrev Members := List (String × Item)

mutual

def Item.toJson : Item → Json
  | .value v => v
  | .table _ _ members => .object (membersToJson members)
  | .tables elements => .array (elementsToJson elements).reverse

def membersToJson : List (String × Item) → List (String × Json)
  | [] => []
  | (key,item) :: rest => (key,item.toJson) :: membersToJson rest

def elementsToJson : List (List (String × Item)) → List Json
  | [] => []
  | members :: rest => .object (membersToJson members) :: elementsToJson rest

end

def find? (members : Members) (key : String) : Option Item :=
  (members.find? (fun (k,_) => k == key)).map (·.2)

def remove (members : Members) (key : String) : Members := members.filter (fun (k,_) => k != key)

def put (members : Members) (key : String) (item : Item) : Members :=
  if members.any (fun (k,_) => k == key) then
    members.map (fun (k,old) => if k = key then (k,item) else (k,old))
  else members ++ [(key,item)]

-- Changes the table that a key leads to; tables on the way are made when they are missing. The
-- change is told whether its table was made by a dotted key.
def within (dotted : Bool) (change : Bool → Members → Option Members) :
    Key → Bool → Members → Option Members
  | [],own,members => change own members
  | k :: rest,_,members =>
    match find? members k with
    | none =>
      (within dotted change rest dotted []).map (fun inner =>
        members ++ [(k,.table true dotted inner)])
    | some (.value _) => none
    | some (.table implied made inner) =>
      if dotted && !implied then none
      else (within dotted change rest made inner).map (fun inner =>
        put members k (.table implied made inner))
    | some (.tables []) => none
    | some (.tables (last :: before)) =>
      (within dotted change rest false last).map (fun last =>
        put members k (.tables (last :: before)))

def define (path : Key) (key : String) (item : Item) (members : Members) : Option Members :=
  within true (fun own inner =>
    if own = path.isEmpty || (find? inner key).isSome then none
    else some (inner ++ [(key,item)])) path false members

def splitKey : Key → Option (Key × String)
  | [] => none
  | [k] => some ([],k)
  | k :: rest => (splitKey rest).map (fun (path,last) => (k :: path,last))

namespace Scan

def isBare (c : Char) : Bool := c.isAlphanum || c = '_' || c = '-'

def simpleKey : Scan String := fun s =>
  match s with
  | '"' :: _ | '\'' :: _ => shortString s
  | _ =>
    let name := s.takeWhile isBare
    if name.isEmpty then none else some (String.ofList name,s.dropWhile isBare)

def keyParts : Nat → Scan Key
  | 0,_ => none
  | fuel + 1,s => do
    let (part,rest) ← simpleKey (skipBlank s)
    match skipBlank rest with
    | '.' :: more =>
      let (parts,rest) ← keyParts fuel more
      some (part :: parts,rest)
    | _ => some ([part],skipBlank rest)

def nestLimit : Nat := 80

def key : Scan (Key × String) := fun s => do
  let (parts,rest) ← keyParts (nestLimit - 1) s
  let k ← splitKey parts
  some (k,rest)

mutual

def value : Nat → Nat → Scan Json
  | 0,_,_ => none
  | fuel + 1,depth,s =>
    match s with
    | '[' :: rest =>
      if depth ≤ 1 then none
      else (elements fuel (depth - 1) (skipAll rest)).map (fun (vs,rest) => (.array vs,rest))
    | '\x7b' :: rest =>
      if depth ≤ 1 then none
      else
        match skipBlank rest with
        | '\x7d' :: rest => some (.object [],rest)
        | rest => (pairs fuel (depth - 1) [] rest).map (fun (ms,rest) =>
            (.object (membersToJson ms),rest))
    | _ => single s

def elements : Nat → Nat → Scan (List Json)
  | 0,_,_ => none
  | fuel + 1,depth,s =>
    match s with
    | ']' :: rest => some ([],rest)
    | _ => do
      let (v,rest) ← value fuel depth s
      match skipAll rest with
      | ',' :: rest =>
        let (vs,rest) ← elements fuel depth (skipAll rest)
        some (v :: vs,rest)
      | ']' :: rest => some ([v],rest)
      | _ => none

def pairs : Nat → Nat → Members → Scan Members
  | 0,_,_,_ => none
  | fuel + 1,depth,members,s => do
    let ((path,last),rest) ← key s
    match rest with
    | '=' :: rest =>
      let (v,rest) ← value fuel depth (skipBlank rest)
      let members ← define path last (.value v) members
      match skipBlank rest with
      | ',' :: rest => pairs fuel depth members rest
      | '\x7d' :: rest => some (members,rest)
      | _ => none
    | _ => none

end

def lineEnd (s : List Char) : Option (List Char) :=
  match comment (skipBlank s) with
  | [] => some []
  | s => lineBreak s

end Scan

-- A document of which some lines have been read. The last table is kept apart until the next
-- one begins.
structure Reading where
  root : Members
  path : Key
  isElement : Bool
  current : Members

namespace Reading

def start : Reading := ⟨[],[],false,[]⟩

def settle (r : Reading) : Option Members :=
  match splitKey r.path with
  | none => some r.current
  | some (path,last) =>
    within false (fun _ inner =>
      match find? inner last with
      | none =>
        some (put inner last
          (if r.isElement then .tables [r.current] else .table false false r.current))
      | some (.tables elements) =>
        if r.isElement then some (put inner last (.tables (r.current :: elements))) else none
      | some (.table true _ _) =>
        if r.isElement then none else some (put inner last (.table false false r.current))
      | some _ => none) path false r.root

def earlier (path : Key) (last : String) (root : Members) : Option Members :=
  match path with
  | [] =>
    match find? root last with
    | none => some []
    | some (.table true false members) => some members
    | some _ => none
  | k :: rest =>
    match find? root k with
    | none => some []
    | some (.table _ _ members) => earlier rest last members
    | some (.tables (members :: _)) => earlier rest last members
    | some _ => none

def openTable (header : Key) (r : Reading) : Option Reading := do
  let root ← r.settle
  let (path,last) ← splitKey header
  let members ← earlier path last root
  let root ← within false (fun _ inner => some (remove inner last)) path false root
  some ⟨root,header,false,members⟩

def openElement (header : Key) (r : Reading) : Option Reading := do
  let root ← r.settle
  let (path,last) ← splitKey header
  let root ← within false (fun _ inner =>
    match find? inner last with
    | none => some inner
    | some (.tables _) => some inner
    | some _ => none) path false root
  some ⟨root,header,true,[]⟩

def addPair (path : Key) (last : String) (v : Json) (r : Reading) : Option Reading :=
  (define path last (.value v) r.current).map (fun members => { r with current := members })

def header (mark : List Char) (openIt : Key → Reading → Option Reading) (r : Reading)
    (s : List Char) : Option (Reading × List Char) := do
  let ((path,last),rest) ← Scan.key s
  let rest ← Scan.wordOf mark rest
  let r ← openIt (path ++ [last]) r
  some (r,rest)

def line (r : Reading) (s : List Char) : Option (Reading × List Char) :=
  match Scan.skipBlank s with
  | [] => some (r,[])
  | '#' :: rest => some (r,'#' :: rest)
  | '\n' :: rest => some (r,'\n' :: rest)
  | '\r' :: rest => some (r,'\r' :: rest)
  | '[' :: '[' :: rest => header [']',']'] openElement r rest
  | '[' :: rest => header [']'] openTable r rest
  | s => do
    let ((path,last),rest) ← Scan.key s
    match rest with
    | '=' :: rest =>
      let (v,rest) ← Scan.value (2 * rest.length + 2) Scan.nestLimit (Scan.skipBlank rest)
      let r ← addPair path last v r
      some (r,rest)
    | _ => none

def lines : Nat → Reading → List Char → Option Reading
  | _,r,[] => some r
  | 0,_,_ => none
  | fuel + 1,r,s => do
    let (r,rest) ← line r s
    let rest ← Scan.lineEnd rest
    lines fuel r rest

end Reading

def dropMark : List Char → List Char
  | c :: rest => if c.toNat = 0xFEFF then rest else c :: rest
  | [] => []

def parse? (text : String) : Option Json := do
  let s := dropMark text.toList
  let r ← Reading.lines (s.length + 1) .start s
  let members ← r.settle
  some (.object (membersToJson members))

end TableView.Toml
