import TableView.Markup.Block
import TableView.Text.Blank

namespace TableView.Inline

def doubled (sign : Char) : List Char := [sign,sign]

-- What stands before the next doubled sign, and what behind it. At least one character comes
-- before it, and there is no line break among them.
def untilMark (sign : Char) : List Char → Option (List Char × List Char)
  | [] => none
  | c :: rest =>
    if c = '\n' then none
    else if (doubled sign).isPrefixOf rest then some ([c],rest.drop 2)
    else (untilMark sign rest).map (fun (inner,after) => (c :: inner,after))

theorem untilMark_length {sign : Char} {text inner after : List Char}
    (found : untilMark sign text = some (inner,after)) : after.length < text.length := by
  induction text generalizing inner after with
  | nil => simp [untilMark] at found
  | cons c rest ih =>
    rw [untilMark] at found
    split at found
    · simp at found
    · split at found
      · simp only [Option.some.injEq,Prod.mk.injEq] at found
        rw [←found.2,List.length_drop,List.length_cons]
        omega
      · obtain ⟨⟨i,a⟩,inside,equal⟩ := Option.map_eq_some_iff.mp found
        simp only [Prod.mk.injEq] at equal
        have shorter := ih inside
        rw [←equal.2,List.length_cons]
        omega

structure Style where
  sign : Char
  before : List Char
  behind : List Char

def marked? (sign : Char) (text : List Char) : Option (List Char × List Char) :=
  if (doubled sign).isPrefixOf text then untilMark sign (text.drop 2) else none

theorem marked?_length {sign : Char} {text inner after : List Char}
    (found : marked? sign text = some (inner,after)) : after.length < text.length := by
  unfold marked? at found
  split at found
  · have shorter := untilMark_length found
    rw [List.length_drop] at shorter
    omega
  · simp at found

def setApart (style : Style) (text : List Char) : List Char :=
  match _h : marked? style.sign text with
  | some (inner,after) => style.before ++ inner ++ style.behind ++ setApart style after
  | none =>
    match text with
    | [] => []
    | c :: rest => c :: setApart style rest
termination_by text.length
decreasing_by
  · exact marked?_length _h
  · simp

-- Drops the tildes that take a character; one before a line break or at the end stays.
def unescape : List Char → List Char
  | [] => []
  | '~' :: c :: rest => if c = '\n' then '~' :: c :: unescape rest else c :: unescape rest
  | c :: rest => c :: unescape rest

def signs : List Char := ['*','/','_']

def plainStyle (sign : Char) : Style := ⟨sign,[],[]⟩

def tagged (sign : Char) (name : String) : Style :=
  ⟨sign,"<".toList ++ name.toList ++ ">".toList,"</".toList ++ name.toList ++ ">".toList⟩

def bold : Style := tagged '*' "strong"
def italic : Style := tagged '/' "em"
def underlined : Style := tagged '_' "ins"

def entity? : Char → Option String
  | '&' => some "&amp;"
  | '<' => some "&lt;"
  | '>' => some "&gt;"
  | '"' => some "&quot;"
  | '\'' => some "&#39;"
  | _ => none

def escapeChar (c : Char) : List Char :=
  match entity? c with
  | some e => e.toList
  | none => [c]

def escape (text : List Char) : List Char := text.flatMap escapeChar

def applyAll (styles : List Style) (text : List Char) : List Char :=
  unescape (styles.foldl (fun t s => setApart s t) text)

def plainChars (content : List Char) : List Char :=
  applyAll (signs.map plainStyle) (Text.Chars.trim content)

def richChars (content : List Char) : List Char :=
  applyAll [bold,italic,underlined] (escape (Text.Chars.trim content))

end TableView.Inline

namespace TableView.Cell

def plainText (c : Cell) : String := String.ofList (Inline.plainChars c.content.toList)

def richText (c : Cell) : String := String.ofList (Inline.richChars c.content.toList)

end TableView.Cell
