import TableView.CommandLine.Options

namespace TableView.CommandLine

inductive Halt where
  | usage
  | help
  | version
deriving DecidableEq,Repr

structure Given where
  values : List (String × String)
  operand : Option String
deriving DecidableEq,Repr

namespace Given

def start : Given := ⟨[],none⟩

def has (g : Given) (o : OptionSpec) : Bool := g.values.any (fun p => p.1 == o.name)

def value? (g : Given) (o : OptionSpec) : Option String :=
  (g.values.find? (fun p => p.1 == o.name)).map (·.2)

def all (g : Given) (o : OptionSpec) : List String :=
  (g.values.filter (fun p => p.1 == o.name)).map (·.2)

end Given

def headerPolicyOf? (s : String) : Option HeaderPolicy :=
  HeaderPolicy.all.find? (fun p => p.name == s)

def compressionOf? (s : String) : Option Compression.Format :=
  Compression.Format.all.find? (fun f => f.name == s)

def naturalOf? (s : String) : Option Nat := Text.Numeral.toOrdinal? s.toList

def ValueKind.accepts (s : String) : ValueKind → Bool
  | .text => true
  | .path => !s.isEmpty
  | .natural => (naturalOf? s).isSome
  | .headerPolicy => (headerPolicyOf? s).isSome
  | .compression => (compressionOf? s).isSome

-- A single dash is a word like any other; everything longer behind a dash is an option.
def isOption (word : String) : Bool :=
  match word.toList with
  | '-' :: _ :: _ => true
  | _ => false

def startsWithLetter (letter : Char) (word : String) : Bool :=
  ['-',letter].isPrefixOf word.toList

def asksForHelp (word : String) : Bool := word = "--help" || startsWithLetter 'h' word

def asksForVersion (word : String) : Bool := word = "--version" || startsWithLetter 'V' word

def attached (word : String) : String × Option String :=
  match Text.Chars.splitOnce '=' word.toList with
  | some (name,value) => (String.ofList name,some (String.ofList value))
  | none => (word,none)

def addValue (g : Given) (o : OptionSpec) (kind : ValueKind) (value : String) :
    Except Halt Given :=
  if g.has o && !o.repeated then .error .usage
  else if kind.accepts value then .ok { g with values := g.values ++ [(o.name,value)] }
  else .error .usage

def addOperand (spec : Option OperandSpec) (g : Given) (word : String) : Except Halt Given :=
  match spec,g.operand with
  | some o,none =>
    if o.kind.accepts word then .ok { g with operand := some word } else .error .usage
  | _,_ => .error .usage

inductive Taken where
  | given (g : Given)
  | wants (o : OptionSpec) (kind : ValueKind)

def takeOption (options : List OptionSpec) (g : Given) (word : String) : Except Halt Taken :=
  let (name,value) := attached word
  match options.find? (fun o => o.name == name) with
  | none => .error .usage
  | some o =>
    match o.value,value with
    | some (kind,_),some v => (addValue g o kind v).map .given
    | some (kind,_),none => .ok (.wants o kind)
    | none,some _ => .error .usage
    | none,none => (addValue g o .text "").map .given

-- The words of a command, up to the last one. Behind a double dash there are only operands.
def readWords (c : CommandSpec) : Given → List String → Except Halt Given
  | g,[] => .ok g
  | g,"--" :: rest => rest.foldlM (addOperand c.operand) g
  | g,word :: rest =>
    if asksForHelp word then .error .help
    else if isOption word then
      match takeOption c.options g word with
      | .error h => .error h
      | .ok (.given g) => readWords c g rest
      | .ok (.wants o kind) =>
        match rest with
        | [] => .error .usage
        | value :: rest =>
          if isOption value then .error .usage
          else
            match addValue g o kind value with
            | .error h => .error h
            | .ok g => readWords c g rest
    else
      match addOperand c.operand g word with
      | .error h => .error h
      | .ok g => readWords c g rest

def readCommand (c : CommandSpec) (words : List String) : Except Halt Given := do
  let g ← readWords c .start words
  if c.operand.isSome && g.operand.isNone then .error .usage else .ok g

end TableView.CommandLine
