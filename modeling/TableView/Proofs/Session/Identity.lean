import TableView.Proofs.OrderedMap
import TableView.Proofs.Session.Trace

namespace TableView

namespace Json

theorem member?_sorted (members : List (String × Json)) (name : String) :
    (Json.object members).sorted.member? name =
      (OrderedMap.find? members.reverse name).map Json.sorted := by
  have found : (Json.object members).sorted.member? name =
      (OrderedMap.ofList (sortedMembers members)).get? name := by
    rw [Json.sorted]
    rfl
  have empty : (OrderedMap.empty : OrderedMap String Json).get? name = none := rfl
  rw [found,OrderedMap.ofList,OrderedMap.get?_foldl_insert,empty,Option.or_none]
  have mapped (l : List (String × Json)) : OrderedMap.find? (sortedMembers l) name =
      (OrderedMap.find? l name).map Json.sorted := by
    induction l with
    | nil => rfl
    | cons p l ih =>
      obtain ⟨key,value⟩ := p
      rw [sortedMembers,OrderedMap.find?_cons,OrderedMap.find?_cons,ih]
      split <;> rfl
  have reversed : (sortedMembers members).reverse = sortedMembers members.reverse := by
    rw [sortedMembers_eq_map,sortedMembers_eq_map,List.map_reverse]
  rw [reversed,mapped]

end Json

theorem FieldValue.sorted_toJson (v : FieldValue) : v.toJson.sorted = v.toJson := by
  cases v <;> rfl

namespace Entry

theorem rowId_told (e : Entry) : e.toJson.sorted.member? rowIdName =
    some ((e.fields.get? rowIdName).elim (.ofNat e.rowId) FieldValue.toJson) := by
  have fields : OrderedMap.find? (e.fields.toList.map (fun p => (p.1,p.2.toJson))).reverse
      rowIdName = (e.fields.get? rowIdName).map FieldValue.toJson := by
    have distinct : ((e.fields.toList.map (fun p => (p.1,p.2.toJson))).reverse.map
        (·.1)).Nodup := by
      rw [List.map_reverse,List.nodup_reverse,List.map_map]
      exact OrderedMap.keys_nodup e.fields.ascending
    cases given : e.fields.get? rowIdName with
    | some v =>
      refine OrderedMap.find?_of_mem distinct (List.mem_reverse.mpr ?_)
      exact List.mem_map.mpr ⟨(rowIdName,v),OrderedMap.mem_toList.mpr given,rfl⟩
    | none =>
      refine OrderedMap.find?_eq_none.mpr ?_
      rw [List.map_reverse,List.mem_reverse,List.map_map]
      exact OrderedMap.find?_eq_none.mp given
  rw [toJson,Json.member?_sorted,members,List.reverse_cons,OrderedMap.find?_append,fields]
  cases e.fields.get? rowIdName with
  | some v => exact congrArg some v.sorted_toJson
  | none => rfl

theorem rowId_told_iff (e : Entry) :
    e.toJson.sorted.member? rowIdName = some (.ofNat e.rowId) ↔
      ∀ v, e.fields.get? rowIdName = some v → v = .number (.integer e.rowId) := by
  rw [rowId_told]
  cases e.fields.get? rowIdName with
  | none => simp
  | some v =>
    cases v with
    | text s => simp [FieldValue.toJson,Json.ofNat]
    | number n => simp [FieldValue.toJson,Json.ofNat]

end Entry

namespace Query

theorem page_sublist (q : Query) (entries : List Entry) : (q.page entries).Sublist entries := by
  rw [page]
  split
  · exact (List.take_sublist _ _).trans (List.drop_sublist _ _)
  · exact List.drop_sublist _ _

theorem mem_run {q : Query} {decoded : List Fields} {e : Entry}
    (member : e ∈ (q.run (Entry.numbered decoded)).entries) :
    decoded[e.rowId]? = some e.fields := by
  have sorted := (q.page_sublist _).subset member
  have passed := (q.sorted_finds (Entry.numbered_ascending decoded)).selected.mem_iff.mp sorted
  exact Entry.mem_numbered.mp (List.mem_filter.mp passed).1

theorem run_rowIds_nodup (q : Query) (decoded : List Fields) :
    ((q.run (Entry.numbered decoded)).entries.map Entry.rowId).Nodup := by
  have ascending := Entry.numbered_ascending decoded
  have numbered : ((Entry.numbered decoded).map Entry.rowId).Nodup :=
    List.pairwise_map.mpr (ascending.imp Nat.ne_of_lt)
  have selected := (q.sorted_finds ascending).selected.map Entry.rowId
  have sorted := selected.nodup_iff.mpr (numbered.sublist (List.filter_sublist.map _))
  exact sorted.sublist ((q.page_sublist _).map _)

end Query

namespace Session

theorem handle_query_entries {s : Session} {entries : String} {fields : Option String}
    {q resolved : Query} {now : Time} {decoded : List Fields}
    (resolves : Resolves s.cache entries now decoded) (read : s.resolved fields q = .ok resolved) :
    ∃ answer, (s.handle (.query entries fields q) now).1 = .ok answer ∧
      answer.member? "entries" = some (.array
        ((resolved.run (Entry.numbered decoded)).entries.map (fun e => e.toJson.sorted))) := by
  refine ⟨(resolved.run (Entry.numbered decoded)).toJson.sorted,?_,?_⟩
  · rw [handle_query s entries fields q now resolves,read]
    rfl
  · rw [QueryResult.toJson,Json.member?_sorted]
    have found (a b : Json) : OrderedMap.find? [("entries",a),("count",b)].reverse "entries" =
        some a := by rfl
    rw [found,Option.map_some,Json.sorted,Json.sortedItems_eq_map,List.map_map]
    rfl

-- The answer to a query of entries that resolve, row by row. Every row of it is made from the row
-- of the payload at some place, no two from one place. The number that it tells is that place
-- exactly when the row of the payload has no field of that name, or one with that very number.
theorem row_told_by_place {s : Session} {entries : String} {fields : Option String}
    {q resolved : Query} {now : Time} {decoded : List Fields}
    (resolves : Resolves s.cache entries now decoded) (read : s.resolved fields q = .ok resolved) :
    ∃ (answer : Json) (page : List Entry),
      (s.handle (.query entries fields q) now).1 = .ok answer ∧
      answer.member? "entries" = some (.array (page.map (fun e => e.toJson.sorted))) ∧
      (∀ e ∈ page, decoded[e.rowId]? = some e.fields) ∧ (page.map Entry.rowId).Nodup ∧
      (∀ e ∈ page, e.toJson.sorted.member? rowIdName = some (.ofNat e.rowId) ↔
        ∀ v, e.fields.get? rowIdName = some v → v = .number (.integer e.rowId)) ∧
      ((∀ e ∈ page, e.fields.get? rowIdName = none) →
        (page.map (fun e => e.toJson.sorted.member? rowIdName)).Nodup) := by
  obtain ⟨answer,given,rows⟩ := handle_query_entries resolves read
  have distinct := resolved.run_rowIds_nodup decoded
  refine ⟨answer,_,given,rows,fun e member => Query.mem_run member,distinct,
    fun e _ => e.rowId_told_iff,?_⟩
  intro unnamed
  have told : (resolved.run (Entry.numbered decoded)).entries.map
      (fun e => e.toJson.sorted.member? rowIdName) =
      ((resolved.run (Entry.numbered decoded)).entries.map Entry.rowId).map
        (fun n => some (Json.ofNat n)) := by
    rw [List.map_map]
    refine List.map_congr_left ?_
    intro e member
    rw [e.rowId_told,unnamed e member]
    rfl
  rw [told]
  refine distinct.map ?_
  intro m n same
  have equal : (m : Int) = n := by simpa [Json.ofNat] using same
  exact Int.ofNat.inj equal

theorem row_told_by_place_second :
    let s : Session := ⟨⟨.gzip,10⟩,none,[]⟩
    -- [{"0":"a"},{"_row_id":1}]
    let payload := "W3siMCI6ImEifSx7Il9yb3dfaWQiOjF9XQ"
    let q : Query := { Query.standard with offset := 1 }
    ∃ (decoded : List Fields) (answer : Json) (e : Entry), Resolves s.cache payload 0 decoded ∧
      (s.handle (.query payload none q) 0).1 = .ok answer ∧
      answer.member? "entries" = some (.array [e.toJson.sorted]) ∧ e.rowId = 1 ∧
      e.toJson.sorted.member? rowIdName = some (.ofNat 1) := by
  intro s payload q
  let decoded : List Fields := [.ofList [("0",.text "a")],
    .ofList [(rowIdName,.number (.integer 1))]]
  have given : (Payload.decodeEntries payload).toOption = some decoded := by decide +kernel
  have resolves : Resolves s.cache payload 0 decoded := ok_of_toOption given
  obtain ⟨answer,page,answered,rows,places,_,told,_⟩ := row_told_by_place resolves
    (show s.resolved none q = .ok (s.limited q) from rfl)
  have ran : (s.limited q).run (Entry.numbered decoded) =
      ⟨[⟨1,.ofList [(rowIdName,.number (.integer 1))]⟩],2⟩ := by
    rw [Query.run_unsorted rfl]
    rfl
  have found := answered.symm.trans (handle_query s payload none q 0 resolves)
  have same : answer = ((s.limited q).run (Entry.numbered decoded)).toJson.sorted :=
    Except.ok.inj found
  rw [same,ran] at rows
  have single : page.map (fun e => e.toJson.sorted) =
      [(Entry.mk 1 (.ofList [(rowIdName,.number (.integer 1))])).toJson.sorted] :=
    (Json.array.inj (Option.some.inj rows)).symm
  obtain ⟨e,rfl,line⟩ := List.map_eq_singleton_iff.mp single
  have number : e.toJson.sorted.member? rowIdName = some (.ofNat 1) := by
    rw [line]
    refine (Entry.rowId_told_iff _).mpr ?_
    intro v given
    exact (Option.some.inj given).symm
  have place : e.rowId = 1 := by
    have atPlace := places e List.mem_cons_self
    obtain ⟨n,fields⟩ := e
    match n with
    | 0 =>
      cases Option.some.inj atPlace
      have missing := (told _ List.mem_cons_self).mpr (by intro v given; cases given)
      rw [missing] at number
      cases number
    | 1 => rfl
    | n + 2 => cases atPlace
  refine ⟨decoded,answer,e,resolves,answered,?_,place,number⟩
  rw [same,ran]
  exact rows

theorem row_ids_repeated :
    let s : Session := ⟨⟨.gzip,10⟩,none,[]⟩
    -- [{"_row_id":7},{"_row_id":7}]
    let payload := "W3siX3Jvd19pZCI6N30seyJfcm93X2lkIjo3fV0"
    ((s.handle (.query payload none .standard) 0).1.toOption.map Json.compact) =
      some "\x7b\"count\":2,\"entries\":[\x7b\"_row_id\":7\x7d,\x7b\"_row_id\":7\x7d]\x7d" := by
  intro s payload
  let fields : Fields := .ofList [(rowIdName,.number (.integer 7))]
  have given : (Payload.decodeEntries payload).toOption = some [fields,fields] := by decide +kernel
  have resolves : Resolves s.cache payload 0 [fields,fields] := ok_of_toOption given
  rw [handle_query s payload none .standard 0 resolves]
  have ran : (s.limited .standard).run (Entry.numbered [fields,fields]) =
      ⟨[⟨0,fields⟩,⟨1,fields⟩],2⟩ := by
    rw [Query.run_unsorted rfl]
    rfl
  have answered : (s.resolved none .standard).map
      (fun q => (q.run (Entry.numbered [fields,fields])).toJson.sorted) =
      .ok (QueryResult.mk [⟨0,fields⟩,⟨1,fields⟩] 2).toJson.sorted :=
    congrArg (fun r : QueryResult => Except.ok r.toJson.sorted) ran
  rw [answered]
  decide +kernel

end Session

end TableView
