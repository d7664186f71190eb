import Mathlib.Data.List.Induction
import Mathlib.Data.List.Nodup
import TableView.Proofs.Outcome
import TableView.Proofs.Query.Narrowing
import TableView.Proofs.Text.Blank
import TableView.Proofs.Text.LowerCase
import TableView.Query.Expression

namespace TableView

open Text.Chars (splitOnce splitOnce_iff splitOnce_eq_none splitLast_append splitLast_none)

inductive FilterSpelling where
  | full (property : String) (op : Operator) (value : String)
  | short (property value : String)

namespace FilterSpelling

def text : FilterSpelling → String
  | full property op value => property ++ ":" ++ op.name ++ ":" ++ value
  | short property value => property ++ ":" ++ value

def condition : FilterSpelling → Condition
  | full property op value => (property,.of op value)
  | short property value => (property,.of .contains value)

-- The first colon ends the property, and what a short form has before its next is no operator.
def Clear : FilterSpelling → Prop
  | full property _ _ => Trimmed property ∧ ':' ∉ property.toList
  | short property value => Trimmed property ∧ ':' ∉ property.toList ∧
    ∀ front back, value.toList = front ++ ':' :: back → ':' ∉ front →
      ∀ op : Operator, op.name.toList ≠ Text.Chars.trim front

end FilterSpelling

inductive SortSpelling where
  | plain (property : String)
  | directed (property : String) (descending : Bool) (direction : String)

namespace SortSpelling

def text : SortSpelling → String
  | plain property => property
  | directed property _ direction => property ++ ":" ++ direction

def entry : SortSpelling → SortEntry
  | plain property => ⟨property,false⟩
  | directed property descending _ => ⟨property,descending⟩

def directionName (descending : Bool) : String := if descending then "desc" else "asc"

-- A property without a direction has no colon; a direction is known in capital letters too.
def Clear : SortSpelling → Prop
  | plain property => Trimmed property ∧ ':' ∉ property.toList
  | directed property descending direction => Trimmed property ∧
    direction.toList.map Char.toLower = (directionName descending).toList

end SortSpelling

namespace Constraint

theorem operatorOf?_name (op : Operator) : operatorOf? op.name.toList = some op := by
  cases op <;> decide +kernel

theorem operatorOf?_other {name : List Char}
    (other : ∀ op : Operator, op.name.toList ≠ Text.Chars.trim name) : operatorOf? name = none := by
  rw [operatorOf?,Operator.ofName?,List.find?_eq_none]
  intro op _ same
  rw [beq_iff_eq] at same
  apply other op
  rw [same,String.toList_ofList]

theorem ofExpression_full (op : Operator) (value : String) :
    ofExpression (op.name.toList ++ ':' :: value.toList) = .of op value := by
  have free : ':' ∉ op.name.toList := by cases op <;> decide
  rw [ofExpression,splitOnce_iff.mpr ⟨rfl,free⟩]
  simp only [operatorOf?_name,String.ofList_toList]

theorem ofExpression_short {value : String}
    (other : ∀ front back, value.toList = front ++ ':' :: back → ':' ∉ front →
      ∀ op : Operator, op.name.toList ≠ Text.Chars.trim front) :
    ofExpression value.toList = .of .contains value := by
  rw [ofExpression]
  split
  · rename_i front back cut
    obtain ⟨whole,free⟩ := splitOnce_iff.mp cut
    simp only [operatorOf?_other (other front back whole free),String.ofList_toList]
  · rw [String.ofList_toList]

end Constraint

namespace Query

theorem filterOf_property {property : String} (t : Trimmed property)
    (free : ':' ∉ property.toList) (rest : String) :
    filterOf (property ++ ":" ++ rest) = .ok (property,.ofExpression rest.toList) := by
  have cut : splitOnce ':' (property ++ ":" ++ rest).toList =
      some (property.toList,rest.toList) := by
    refine splitOnce_iff.mpr ⟨?_,free⟩
    simp
  rw [filterOf,cut]
  simp only [t.chars,t.nonempty,Bool.false_eq_true,if_false,String.ofList_toList]

theorem filterOf_text {f : FilterSpelling} (clear : f.Clear) :
    filterOf f.text = .ok f.condition := by
  cases f with
  | full property op value =>
    have read := filterOf_property clear.1 clear.2 (op.name ++ ":" ++ value)
    have rest : (op.name ++ ":" ++ value).toList = op.name.toList ++ ':' :: value.toList := by simp
    rw [rest,Constraint.ofExpression_full] at read
    rw [FilterSpelling.text,FilterSpelling.condition,←read]
    simp only [String.append_assoc]
  | short property value =>
    obtain ⟨t,free,other⟩ := clear
    rw [FilterSpelling.text,filterOf_property t free,Constraint.ofExpression_short other]
    rfl

theorem sortColumn_property {property : String} (t : Trimmed property) (expression : String)
    (descending : Bool) :
    sortColumn expression property.toList descending = .ok ⟨property,descending⟩ := by
  simp only [sortColumn,t.chars,t.nonempty,Bool.false_eq_true,if_false,String.ofList_toList]

theorem toLower_letter {c : Char} (least : 97 ≤ c.toLower.toNat)
    (greatest : c.toLower.toNat ≤ 122) : 65 ≤ c.toNat ∧ c.toNat ≤ 122 := by
  rcases Text.LowerCase.toLower_cases c with same | ⟨low,high⟩
  · rw [same] at least greatest
    exact ⟨Nat.le_trans (by decide) least,greatest⟩
  · exact ⟨low,Nat.le_trans high (by decide)⟩

theorem direction_letters {descending : Bool} {direction : List Char}
    (spelled : direction.map Char.toLower = (SortSpelling.directionName descending).toList) :
    ∀ c ∈ direction, 65 ≤ c.toNat ∧ c.toNat ≤ 122 := by
  intro c member
  have inName : c.toLower ∈ (SortSpelling.directionName descending).toList :=
    spelled ▸ List.mem_map_of_mem member
  have letters : (SortSpelling.directionName descending).toList.all
      (fun d => 97 ≤ d.toNat ∧ d.toNat ≤ 122) = true := by cases descending <;> rfl
  obtain ⟨least,greatest⟩ := of_decide_eq_true (List.all_eq_true.mp letters _ inName)
  exact toLower_letter least greatest

theorem lower_direction {descending : Bool} {direction : List Char}
    (spelled : direction.map Char.toLower = (SortSpelling.directionName descending).toList) :
    String.ofList (Text.LowerCase.ofChars (Text.Chars.trim direction)) =
      SortSpelling.directionName descending := by
  have letters := direction_letters spelled
  have solid : ∀ c ∈ direction, Text.isBlank c = false := by
    intro c member
    obtain ⟨least,greatest⟩ := letters c member
    simp [Text.isBlank]
    omega
  have ascii : ∀ c ∈ direction, c.toNat < 128 := by
    intro c member
    have := (letters c member).2
    omega
  rw [Text.Chars.trim_solid_ends (fun c first => solid c (List.mem_of_head? first))
    (fun c last => solid c (List.mem_of_getLast? last)),Text.LowerCase.ofChars_ascii ascii,spelled,
    String.ofList_toList]

theorem sortOf_text {s : SortSpelling} (clear : s.Clear) : sortOf s.text = .ok s.entry := by
  cases s with
  | plain property =>
    obtain ⟨t,free⟩ := clear
    rw [SortSpelling.text,sortOf,splitLast_none free]
    exact sortColumn_property t property false
  | directed property descending direction =>
    obtain ⟨t,spelled⟩ := clear
    have free : ':' ∉ direction.toList := by
      intro member
      have letter := (direction_letters spelled ':' member).1
      exact absurd letter (by decide)
    have whole : (property ++ ":" ++ direction).toList =
        property.toList ++ ':' :: direction.toList := by simp
    rw [SortSpelling.text,sortOf,whole,splitLast_append free]
    simp only [lower_direction spelled]
    cases descending <;> exact sortColumn_property t _ _

def asked (conditions : List Condition) (property : String) : List Constraint :=
  (conditions.filter (·.1 == property)).map (·.2)

def grouped (conditions : List Condition) : List Filter :=
  (conditions.map (·.1)).eraseDups.map (fun property => ⟨property,asked conditions property⟩)

theorem grouped_properties (conditions : List Condition) :
    (grouped conditions).map (·.property) = (conditions.map (·.1)).eraseDups := by
  simp [grouped,Function.comp_def]

theorem asked_append (conditions : List Condition) (property other : String) (c : Constraint) :
    asked (conditions ++ [(property,c)]) other =
      asked conditions other ++ if other = property then [c] else [] := by
  rw [asked,asked,List.filter_append,List.map_append]
  by_cases same : other = property
  · simp [same]
  · simp [same,Ne.symm same]

theorem asked_other {conditions : List Condition} {property : String}
    (other : property ∉ conditions.map (·.1)) : asked conditions property = [] := by
  rw [asked,List.map_eq_nil_iff,List.filter_eq_nil_iff]
  intro condition member same
  rw [beq_iff_eq] at same
  exact other (List.mem_map.mpr ⟨condition,member,same⟩)

theorem constrain_other {property : String} (c : Constraint) {filters : List Filter}
    (other : property ∉ filters.map (·.property)) :
    constrain property c filters = filters ++ [⟨property,[c]⟩] := by
  induction filters with
  | nil => rfl
  | cons f filters ih =>
    rw [List.map_cons,List.mem_cons,not_or] at other
    rw [constrain,if_neg (fun same => other.1 same.symm),ih other.2,List.cons_append]

theorem constrain_map {property : String} (c : Constraint) {properties : List String}
    (distinct : properties.Nodup) (member : property ∈ properties)
    (given : String → List Constraint) :
    constrain property c (properties.map (fun p => ⟨p,given p⟩)) =
      properties.map (fun p => ⟨p,given p ++ if p = property then [c] else []⟩) := by
  induction properties with
  | nil => cases member
  | cons p properties ih =>
    obtain ⟨absent,distinct⟩ := List.nodup_cons.mp distinct
    rw [List.map_cons,List.map_cons,constrain]
    by_cases same : p = property
    · subst same
      rw [if_pos rfl,if_pos rfl]
      refine congrArg (List.cons _) (List.map_congr_left ?_)
      intro q inRest
      have other : q ≠ p := fun same => absent (same ▸ inRest)
      rw [if_neg other,List.append_nil]
    · have later := (List.mem_cons.mp member).resolve_left (Ne.symm same)
      rw [if_neg same,if_neg same,ih distinct later,List.append_nil]

theorem eraseDups_append (properties : List String) (p : String) :
    (properties ++ [p]).eraseDups =
      if p ∈ properties then properties.eraseDups else properties.eraseDups ++ [p] := by
  rw [List.eraseDups_append]
  by_cases member : p ∈ properties
  · simp [List.removeAll,member]
  · simp [List.removeAll,member,List.eraseDups_cons]

theorem eraseDups_nodup (properties : List String) : properties.eraseDups.Nodup := by
  induction properties using List.reverseRecOn with
  | nil => exact List.nodup_nil
  | append_singleton properties p ih =>
    rw [eraseDups_append]
    split
    · exact ih
    · rename_i other
      refine List.nodup_append.mpr ⟨ih,List.nodup_singleton p,?_⟩
      rintro q inside r last rfl
      rw [List.mem_singleton.mp last,List.mem_eraseDups] at inside
      exact other inside

theorem grouped_append (conditions : List Condition) (added : Condition) :
    grouped (conditions ++ [added]) = constrain added.1 added.2 (grouped conditions) := by
  obtain ⟨property,c⟩ := added
  simp only [grouped,List.map_append,List.map_cons,List.map_nil,eraseDups_append,asked_append]
  split
  · rename_i member
    exact (constrain_map c (eraseDups_nodup _) (List.mem_eraseDups.mpr member) _).symm
  · rename_i other
    have absent : property ∉ (grouped conditions).map (·.property) := by
      rw [grouped_properties,List.mem_eraseDups]
      exact other
    rw [grouped] at absent
    rw [constrain_other c absent,List.map_append,List.map_singleton,asked_other other,if_pos rfl]
    refine congrArg (· ++ _) (List.map_congr_left ?_)
    intro p member
    have differ : p ≠ property := fun same => other (List.mem_eraseDups.mp (same ▸ member))
    rw [if_neg differ,List.append_nil]

theorem addConstraints_grouped {q : Query} {conditions : List Condition}
    (start : q.filters = grouped conditions) (added : List Condition) :
    q.addConstraints added = { q with filters := grouped (conditions ++ added) } := by
  induction added generalizing q conditions with
  | nil => rw [List.append_nil,←start]; rfl
  | cons condition added ih =>
    have one : (q.addConstraint condition.1 condition.2).filters =
        grouped (conditions ++ [condition]) := by
      rw [grouped_append,←start]
      rfl
    have more := ih one
    rw [List.append_assoc,List.singleton_append] at more
    exact more

theorem addFilters_texts {filters : List FilterSpelling} (clear : ∀ f ∈ filters, f.Clear)
    (q : Query) : addFilters (filters.map (·.text)) q =
      .ok (q.addConstraints (filters.map (·.condition))) := by
  induction filters generalizing q with
  | nil => rfl
  | cons f filters ih =>
    obtain ⟨one,others⟩ := List.forall_mem_cons.mp clear
    simp only [List.map_cons,addFilters,filterOf_text one,bind,Except.bind,ih others]
    rfl

theorem sortOf_texts {sorts : List SortSpelling} (clear : ∀ s ∈ sorts, s.Clear) :
    (sorts.map (·.text)).mapM sortOf = .ok (sorts.map (·.entry)) := by
  induction sorts with
  | nil => rfl
  | cons s sorts ih =>
    obtain ⟨one,others⟩ := List.forall_mem_cons.mp clear
    simp only [List.map_cons,List.mapM_cons,sortOf_text one,ih others,bind,Except.bind]
    rfl

-- Clear expressions make a query, whatever their values and however often they name a property. It
-- has one filter for each property, with all that is asked of it, and the sort keys as they are
-- given.
theorem ofExpressions_texts {filters : List FilterSpelling} {sorts : List SortSpelling}
    (clear : ∀ f ∈ filters, f.Clear) (ordered : ∀ s ∈ sorts, s.Clear) (offset : Nat)
    (limit : Option Nat) :
    ofExpressions (filters.map (·.text)) (sorts.map (·.text)) offset limit =
        .ok ⟨grouped (filters.map (·.condition)),sorts.map (·.entry),offset,limit⟩ ∧
      ((grouped (filters.map (·.condition))).map (·.property)).Nodup := by
  have none : ([] : List Filter) = grouped [] := rfl
  refine ⟨?_,?_⟩
  · simp only [ofExpressions,addFilters_texts clear,sortOf_texts ordered,bind,Except.bind]
    rw [addConstraints_grouped none]
    rfl
  · rw [grouped_properties]
    exact eraseDups_nodup _

theorem ofExpressions_texts_colons :
    ofExpressions ["when:equals:contains:x","name:10:30","when:between:2024-01-01T10:00:00Z/now"]
        ["name","a:asc:DeSC"] 2 (some 5) =
      .ok ⟨[⟨"when",[⟨"equals","contains:x"⟩,⟨"between","2024-01-01T10:00:00Z/now"⟩]⟩,
        ⟨"name",[⟨"contains","10:30"⟩]⟩],[⟨"name",false⟩,⟨"a:asc",true⟩],2,some 5⟩ := by
  have date : Trimmed "when" ∧ ':' ∉ "when".toList := ⟨⟨by decide,by decide +kernel⟩,by decide⟩
  have name : Trimmed "name" ∧ ':' ∉ "name".toList := ⟨⟨by decide,by decide +kernel⟩,by decide⟩
  have time : FilterSpelling.Clear (.short "name" "10:30") := by
    refine ⟨name.1,name.2,?_⟩
    intro front back whole free op
    have cut : splitOnce ':' "10:30".toList = some (['1','0'],['3','0']) := by decide +kernel
    cases cut.symm.trans (splitOnce_iff.mpr ⟨whole,free⟩)
    cases op <;> decide +kernel
  have clear : ∀ f ∈ [FilterSpelling.full "when" .equals "contains:x",.short "name" "10:30",
      .full "when" .between "2024-01-01T10:00:00Z/now"], f.Clear := by
    simp only [List.forall_mem_cons,List.not_mem_nil,false_imp_iff,implies_true,and_true]
    exact ⟨date,time,date⟩
  have ordered : ∀ s ∈ [SortSpelling.plain "name",.directed "a:asc" true "DeSC"], s.Clear := by
    simp only [List.forall_mem_cons,List.not_mem_nil,false_imp_iff,implies_true,and_true]
    exact ⟨name,⟨by decide,by decide +kernel⟩,by decide +kernel⟩
  exact (ofExpressions_texts clear ordered 2 (some 5)).1

end Query

end TableView
