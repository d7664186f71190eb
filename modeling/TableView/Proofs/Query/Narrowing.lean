import TableView.Proofs.Query.Execution

namespace TableView

abbrev Condition := String × Constraint

def Condition.holds (condition : Condition) (e : Entry) : Bool := condition.2.admits condition.1 e

def Filter.conditions (f : Filter) : List Condition := f.constraints.map (fun c => (f.property,c))

def QueryResult.keep (r : QueryResult) (passes : Entry → Bool) : QueryResult :=
  ⟨r.entries.filter passes,(r.entries.filter passes).length⟩

namespace Query

def conditions (q : Query) : List Condition := q.filters.flatMap Filter.conditions

def addConstraints (q : Query) (added : List Condition) : Query :=
  added.foldl (fun q condition => q.addConstraint condition.1 condition.2) q

structure Whole (q : Query) : Prop where
  offset : q.offset = 0
  limit : q.limit = none

theorem satisfied_conditions (q : Query) (e : Entry) :
    q.Satisfied e ↔ ∀ condition ∈ q.conditions, condition.holds e = true := by
  constructor
  · intro satisfied condition member
    obtain ⟨f,inFilters,inFilter⟩ := List.mem_flatMap.mp member
    obtain ⟨c,inConstraints,rfl⟩ := List.mem_map.mp inFilter
    exact satisfied f inFilters c inConstraints
  · intro all f inFilters c inConstraints
    exact all (f.property,c)
      (List.mem_flatMap.mpr ⟨f,inFilters,List.mem_map_of_mem inConstraints⟩)

theorem conditions_constrain (property : String) (c : Constraint) (filters : List Filter) :
    ((constrain property c filters).flatMap Filter.conditions).Perm
      ((property,c) :: filters.flatMap Filter.conditions) := by
  induction filters with
  | nil => exact .refl _
  | cons f rest ih =>
    rw [constrain]
    split
    · rename_i named
      have merged : Filter.conditions { f with constraints := f.constraints ++ [c] } =
          f.conditions ++ [(property,c)] := by
        simp [Filter.conditions,named]
      rw [List.flatMap_cons,List.flatMap_cons,merged,List.append_assoc]
      exact List.perm_middle
    · rw [List.flatMap_cons,List.flatMap_cons]
      exact (ih.append_left f.conditions).trans List.perm_middle

theorem conditions_addConstraints (q : Query) (added : List Condition) :
    (q.addConstraints added).conditions.Perm (added ++ q.conditions) := by
  induction added generalizing q with
  | nil => exact .refl _
  | cons condition added ih =>
    have one : (q.addConstraint condition.1 condition.2).conditions.Perm
        (condition :: q.conditions) := conditions_constrain condition.1 condition.2 q.filters
    exact ((ih _).trans (one.append_left added)).trans List.perm_middle

theorem addConstraints_sort (q : Query) (added : List Condition) :
    (q.addConstraints added).sort = q.sort := by
  induction added generalizing q with
  | nil => rfl
  | cons condition added ih => exact ih _

theorem Whole.addConstraints {q : Query} (whole : q.Whole) (added : List Condition) :
    (q.addConstraints added).Whole := by
  induction added generalizing q with
  | nil => exact whole
  | cons condition added ih => exact ih ⟨whole.offset,whole.limit⟩

theorem run_whole {q : Query} (whole : q.Whole) (entries : List Entry) :
    q.run entries =
      ⟨q.sorted (q.matching entries),(q.sorted (q.matching entries)).length⟩ := by
  rw [sorted,List.length_mergeSort,run,page,whole.offset,whole.limit]
  rfl

theorem Finds.narrowed {q narrower : Query} {entries found : List Entry}
    (finds : q.Finds entries found) (sameSort : narrower.sort = q.sort) {passes : Entry → Bool}
    (asks : ∀ e, narrower.Satisfied e ↔ passes e = true ∧ q.Satisfied e) :
    narrower.Finds entries (found.filter passes) := by
  refine ⟨?_,?_,?_⟩
  · have selected := finds.selected.filter passes
    rw [List.filter_filter] at selected
    refine selected.trans (.of_eq (List.filter_congr ?_))
    intro e _
    rw [Bool.eq_iff_iff,decide_eq_true_iff,asks,Bool.and_eq_true,decide_eq_true_iff]
  · rw [sameSort]
    exact finds.ordered.filter passes
  · rw [sameSort]
    exact finds.stable.filter passes

theorem run_narrowed {q narrower : Query} (whole : q.Whole) (narrowerWhole : narrower.Whole)
    (sameSort : narrower.sort = q.sort) {added : List Condition}
    (more : narrower.conditions.Perm (added ++ q.conditions)) (decoded : List Fields) :
    narrower.run (Entry.numbered decoded) =
      (q.run (Entry.numbered decoded)).keep (fun e => added.all (·.holds e)) := by
  have asks (e : Entry) : narrower.Satisfied e ↔
      added.all (·.holds e) = true ∧ q.Satisfied e := by
    rw [satisfied_conditions,satisfied_conditions,List.all_eq_true]
    simp only [more.mem_iff,List.forall_mem_append]
  have ascending := Entry.numbered_ascending decoded
  have left := (q.sorted_finds ascending).narrowed sameSort asks
  have found := (narrower.sorted_finds ascending).unique left
  rw [run_whole narrowerWhole,run_whole whole,found]
  rfl

end Query

theorem execute_run {q other : Query} {change : QueryResult → QueryResult}
    (runs : ∀ decoded, other.run (Entry.numbered decoded) =
      change (q.run (Entry.numbered decoded)))
    (cache : Option Cache) (reference : String) (now : Time) :
    execute cache reference other now =
      ((execute cache reference q now).1.map change,(execute cache reference q now).2) := by
  have loaded (payload : String) (fault : PayloadFault → RequestFault) :
      (((Payload.decodeEntries payload).mapError fault).map Entry.numbered).map other.run =
        ((((Payload.decodeEntries payload).mapError fault).map Entry.numbered).map q.run).map
          change := by
    cases Payload.decodeEntries payload with
    | error e => rfl
    | ok decoded => exact congrArg Except.ok (runs decoded)
  refine Prod.ext ?_ rfl
  simp only [execute,loadEntries]
  cases (lookUp cache reference now).1 with
  | none => exact loaded reference .unresolvedReference
  | some payload => exact loaded payload .corruptCachedData

-- A constraint that is added to a query for all that is found deletes those entries from the answer
-- that fail it. So do many, in any order, and in any filters: every query for all that is found,
-- with the same sort keys and the conditions of both, gives the same answer.
theorem execute_narrowed {q : Query} (whole : q.Whole) (cache : Option Cache)
    (reference : String) (now : Time) :
    (∀ property c, execute cache reference (q.addConstraint property c) now =
      ((execute cache reference q now).1.map (·.keep (c.admits property)),
        (execute cache reference q now).2)) ∧
    ∀ added : List Condition,
      let answer := ((execute cache reference q now).1.map
        (·.keep (fun e => added.all (·.holds e))),(execute cache reference q now).2)
      (∀ order : List Condition, order.Perm added →
        execute cache reference (q.addConstraints order) now = answer) ∧
      ∀ narrower : Query, narrower.Whole → narrower.sort = q.sort →
        narrower.conditions.Perm (added ++ q.conditions) →
          execute cache reference narrower now = answer := by
  have narrowed {added : List Condition} {narrower : Query} (narrowerWhole : narrower.Whole)
      (sameSort : narrower.sort = q.sort)
      (more : narrower.conditions.Perm (added ++ q.conditions)) :
      execute cache reference narrower now = ((execute cache reference q now).1.map
        (·.keep (fun e => added.all (·.holds e))),(execute cache reference q now).2) := by
    refine execute_run ?_ cache reference now
    exact Query.run_narrowed whole narrowerWhole sameSort more
  refine ⟨?_,?_⟩
  · intro property c
    have one := narrowed (whole.addConstraints [(property,c)]) (q.addConstraints_sort _)
      (q.conditions_addConstraints _)
    simp only [List.all_cons,List.all_nil,Bool.and_true] at one
    exact one
  · intro added answer
    refine ⟨?_,fun narrower => narrowed⟩
    intro order permuted
    have more := (q.conditions_addConstraints order).trans (permuted.append_right q.conditions)
    exact narrowed (whole.addConstraints order) (q.addConstraints_sort order) more

-- Rows with the texts b, ab and Abc, of which the second has a text in another column, too; the
-- filters of the narrower query are apart and in another order.
theorem execute_narrowed_apart :
    let q : Query := ⟨[⟨"0",[⟨"contains","b"⟩]⟩],[⟨"0",false⟩],0,none⟩
    let added : List Condition := [("0",⟨"startsWith","a"⟩),("1",⟨"equals","x"⟩)]
    let narrower : Query :=
      ⟨[⟨"1",[⟨"equals","x"⟩]⟩,⟨"0",[⟨"contains","b"⟩]⟩,⟨"0",[⟨"startsWith","a"⟩]⟩],
        [⟨"0",false⟩],0,none⟩
    let payload := "W3siMCI6ImIifSx7IjAiOiJhYiIsIjEiOiJ5In0seyIwIjoiQWJjIn1d"
    let counted := fun q : Query => (execute none payload q 0).1.toOption.map QueryResult.count
    q.Whole ∧ narrower.Whole ∧ narrower.conditions.Perm (added ++ q.conditions) ∧
      counted q = some 3 ∧ counted narrower = some 1 ∧
      (execute none payload narrower 0).1 = (execute none payload q 0).1.map
        (·.keep (fun e => added.all (·.holds e))) := by
  intro q added narrower payload counted
  have whole : q.Whole := ⟨rfl,rfl⟩
  have narrowerWhole : narrower.Whole := ⟨rfl,rfl⟩
  have more : narrower.conditions.Perm (added ++ q.conditions) := by decide
  obtain ⟨_,apart⟩ := (execute_narrowed whole none payload 0).2 added
  have narrowed := apart narrower narrowerWhole rfl more
  refine ⟨whole,narrowerWhole,more,?_,?_,?_⟩
  · decide +kernel
  · decide +kernel
  · rw [narrowed]

end TableView
