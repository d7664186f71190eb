import TableView.Json.Decoder

namespace TableView.Json.Decoder

open Scan (skipBlank)

-- The tag may stand anywhere among the members, so the others are kept as values until the end, and
-- what does not fit them has no place in the text.
def taggedMembers (tag : String) (kinds : List (String × α)) (depth : Nat) :
    Nat → Bool → Option α → List (String × Json) → List Char →
    Except Fault ((α × List (String × Json)) × List Char)
  | 0,_,_,_,s => .error (.here .endInObject s)
  | fuel + 1,first,kind,others,s => do
    match ← nextName first s with
    | none =>
      match kind with
      | some k => .ok ((k,others.reverse),closeWith '\x7d' s)
      | none => .error (.unplaced (.missingField tag) s)
    | some (name,s) =>
      if name = tag then
        if kind.isSome then .error (.unplaced (.duplicateField tag) s)
        else
          let s ← colon s
          let (k,s) ← variantName kinds s
          taggedMembers tag kinds depth fuel false (some k) others s
      else
        let s ← colon s
        let (v,s) ← valueAt depth s
        taggedMembers tag kinds depth fuel false kind ((name,v) :: others) s

def taggedItems (tag : String) (kinds : List (String × α)) (depth : Nat) (s : List Char) :
    Except Fault ((α × List Json) × List Char) := do
  match ← nextItem true s with
  | none => .error (.unplaced (.missingField tag) s)
  | some s =>
    let (k,s) ← variantName kinds s
    let (rest,s) ← items (2 * s.length + 2) depth false s
    .ok ((k,rest),s)

def finish (kind : Decoder α) (content : Json) (rest : List Char) : Except Fault (α × List Char) :=
  match kind.ofValue content with
  | .ok a => .ok (a,rest)
  | .error m => .error (.unplaced m rest)

def taggedText (what tag : String) (kinds : List (String × Decoder α)) (depth : Nat)
    (s : List Char) : Except Fault (α × List Char) :=
  begin (fun c rest s =>
    if c = '\x7b' then
      if depth ≤ 1 then .error (.next .tooDeep s)
      else do
        let ((kind,others),rest) ← (taggedMembers tag kinds (depth - 1) (rest.length + 1) true
          none [] rest).mapError leaveObject
        finish kind (.object others) rest
    else if c = '[' then
      if depth ≤ 1 then .error (.next .tooDeep s)
      else do
        let ((kind,others),rest) ← (taggedItems tag kinds (depth - 1) rest).mapError leaveList
        finish kind (.array others) rest
    else .error (wrongType what s)) s

def taggedValue (what tag : String) (kinds : List (String × Decoder α)) :
    Json → Except Mismatch α
  | .object members =>
    match members.filter (fun (name,_) => name == tag) with
    | [] => .error (.missingField tag)
    | [(_,.string name)] => do
      let kind ← choose kinds name
      kind.ofValue (.object (members.filter (fun (name,_) => name != tag)))
    | [(_,v)] => .error (.wrongType (.of v) "variant identifier")
    | _ => .error (.duplicateField tag)
  | .array [] => .error (.missingField tag)
  | .array (.string name :: rest) => do
    let kind ← choose kinds name
    kind.ofValue (.array rest)
  | .array (v :: _) => .error (.wrongType (.of v) "variant identifier")
  | v => .error (.wrongType (.of v) what)

def tagged (what tag : String) (kinds : List (String × Decoder α)) : Decoder α :=
  ⟨taggedText what tag kinds,taggedValue what tag kinds⟩

end TableView.Json.Decoder
