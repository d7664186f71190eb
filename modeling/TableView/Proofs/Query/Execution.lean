import Mathlib.Data.List.Basic
import TableView.Proofs.Outcome
import TableView.Proofs.Query.Order
import TableView.Query.Execution

namespace TableView

-- A sorted list keeps the given order between entries that it does not tell apart.
theorem mergeSort_stable {α : Type} {le : α → α → Bool}
    (trans : ∀ a b c : α, le a b → le b c → le a c) (total : ∀ a b : α, le a b || le b a)
    {before : α → α → Prop} {l : List α} (given : l.Pairwise before) :
    (l.mergeSort le).Pairwise (fun a b => le b a = true → before a b) := by
  induction l with
  | nil => simp
  | cons a l ih =>
    obtain ⟨above,rest⟩ := List.pairwise_cons.mp given
    obtain ⟨front,back,whole,part,smaller⟩ := List.mergeSort_cons trans total a l
    have kept := ih rest
    rw [part] at kept
    rw [whole]
    obtain ⟨left,right,across⟩ := List.pairwise_append.mp kept
    refine List.pairwise_append.mpr ⟨left,List.pairwise_cons.mpr ⟨?_,right⟩,?_⟩
    · intro b inBack _
      have inRest : b ∈ l.mergeSort le := part ▸ List.mem_append_right _ inBack
      exact above b (List.mem_mergeSort.mp inRest)
    · intro b inFront c inBack
      rcases List.mem_cons.mp inBack with rfl | inBack
      · intro tie
        have := smaller b inFront
        simp [tie] at this
      · exact across b inFront c inBack

theorem flatMap_stretches (l : List α) (size n : Nat) :
    (List.range n).flatMap (fun k => (l.drop (k * size)).take size) = l.take (n * size) := by
  induction n with
  | zero => simp
  | succ n ih =>
    rw [List.range_succ,List.flatMap_append,ih,Nat.succ_mul,List.take_add]
    simp

namespace Entry

theorem numbered_getElem? (decoded : List Fields) (i : Nat) :
    (numbered decoded)[i]? = (decoded[i]?).map (fun fields => ⟨i,fields⟩) := by
  simp [numbered,List.getElem?_map,List.getElem?_zipIdx,Option.map_map,Function.comp_def]

theorem numbered_ascending (decoded : List Fields) :
    (numbered decoded).Pairwise (fun a b => a.rowId < b.rowId) := by
  rw [List.pairwise_iff_getElem]
  intro i j hi hj less
  have atI := numbered_getElem? decoded i
  have atJ := numbered_getElem? decoded j
  rw [List.getElem?_eq_getElem hi] at atI
  rw [List.getElem?_eq_getElem hj] at atJ
  obtain ⟨x,_,hx⟩ := Option.map_eq_some_iff.mp atI.symm
  obtain ⟨y,_,hy⟩ := Option.map_eq_some_iff.mp atJ.symm
  rw [←hx,←hy]
  exact less

theorem mem_numbered {decoded : List Fields} {e : Entry} :
    e ∈ numbered decoded ↔ decoded[e.rowId]? = some e.fields := by
  rw [List.mem_iff_getElem?]
  simp only [numbered_getElem?,Option.map_eq_some_iff]
  constructor
  · rintro ⟨i,fields,found,rfl⟩
    exact found
  · intro found
    exact ⟨e.rowId,e.fields,found,rfl⟩

end Entry

namespace Query

def Satisfied (q : Query) (e : Entry) : Prop :=
  ∀ f ∈ q.filters, ∀ c ∈ f.constraints, c.admits f.property e = true

instance (q : Query) (e : Entry) : Decidable (q.Satisfied e) := by
  unfold Satisfied; infer_instance

theorem admits_iff (q : Query) (e : Entry) : q.admits e = true ↔ q.Satisfied e := by
  simp [Query.admits,Filter.admits,Satisfied]

theorem matching_satisfied (q : Query) (entries : List Entry) :
    q.matching entries = entries.filter (fun e => decide (q.Satisfied e)) := by
  apply List.filter_congr
  intro e _
  rw [Bool.eq_iff_iff,admits_iff,decide_eq_true_iff]

structure Finds (q : Query) (entries found : List Entry) : Prop where
  selected : found.Perm (entries.filter (fun e => decide (q.Satisfied e)))
  ordered : found.Pairwise (fun a b => Entry.compareAll a b q.sort ≠ .gt)
  stable : found.Pairwise (fun a b => Entry.compareAll a b q.sort = .eq → a.rowId < b.rowId)

theorem sorted_finds (q : Query) {entries : List Entry}
    (ascending : entries.Pairwise (fun a b => a.rowId < b.rowId)) :
    q.Finds entries (q.sorted (q.matching entries)) := by
  have trans := Entry.compareAll_trans q.sort
  have total := Entry.compareAll_total q.sort
  refine ⟨?_,?_,?_⟩
  · rw [←matching_satisfied]
    exact List.mergeSort_perm _ _
  · apply (List.pairwise_mergeSort trans total (q.matching entries)).imp
    intro a b inOrder
    cases compared : Entry.compareAll a b q.sort <;> simp_all
  · apply (mergeSort_stable trans total (ascending.filter q.admits)).imp
    intro a b tied equal
    apply tied
    rw [Entry.compareAll_swap q.sort a b,equal]
    rfl

-- Two lists that a query finds have the same entries, and no two of them in different orders.
theorem Finds.unique {q : Query} {entries found other : List Entry} (one : q.Finds entries found)
    (two : q.Finds entries other) : found = other := by
  have both {l : List Entry} (finds : q.Finds entries l) :=
    List.pairwise_and_iff.mpr ⟨finds.ordered,finds.stable⟩
  apply List.Perm.eq_of_pairwise _ (both one) (both two) (one.selected.trans two.selected.symm)
  rintro a b _ _ ⟨notAfter,tie⟩ ⟨notBefore,back⟩
  rw [Entry.compareAll_swap q.sort a b] at notBefore back
  cases compared : Entry.compareAll a b q.sort with
  | lt => simp [compared] at notBefore
  | gt => exact absurd compared notAfter
  | eq =>
    have less := tie compared
    have more := back (by rw [compared]; rfl)
    omega

theorem run_unsorted {q : Query} (free : q.sort = []) (entries : List Entry) :
    q.run entries = ⟨q.page (q.matching entries),(q.matching entries).length⟩ := by
  have same : q.sorted (q.matching entries) = q.matching entries := by
    refine List.mergeSort_of_pairwise (List.pairwise_of_forall ?_)
    intro a b
    rw [free]
    rfl
  rw [run,same]

end Query

structure QueryResult.IsStretch (r : QueryResult) (q : Query) (found : List Entry) : Prop where
  counted : r.count = found.length
  limited : ∀ n, q.limit = some n → r.entries = (found.drop q.offset).take n
  unlimited : q.limit = none → r.entries = found.drop q.offset

theorem Query.run_stretch (q : Query) (entries : List Entry) :
    (q.run entries).IsStretch q (q.sorted (q.matching entries)) := by
  refine ⟨(List.length_mergeSort _).symm,?_,?_⟩
  · intro n limit
    simp [Query.run,Query.page,limit]
  · intro limit
    simp [Query.run,Query.page,limit]

theorem lookUp_cache (c : Cache) (reference : String) (now : Time) :
    (lookUp (some c) reference now).1 = (c.get reference now).1 := rfl

-- A reference resolves to entries when they are in what the cache holds under it, or else in
-- the reference itself.
def Resolves (cache : Option Cache) (reference : String) (now : Time) (decoded : List Fields) :
    Prop :=
  Payload.decodeEntries ((lookUp cache reference now).1.getD reference) = .ok decoded

theorem execute_resolved {cache : Option Cache} {reference : String} {now : Time}
    {decoded : List Fields} (resolves : Resolves cache reference now decoded) (q : Query) :
    (execute cache reference q now).1 = .ok (q.run (Entry.numbered decoded)) := by
  unfold Resolves at resolves
  cases found : (lookUp cache reference now).1 with
  | none =>
    rw [found,Option.getD_none] at resolves
    simp [execute,found,loadEntries,resolves,Except.map,Except.mapError]
  | some payload =>
    rw [found,Option.getD_some] at resolves
    simp [execute,found,loadEntries,resolves,Except.map,Except.mapError]

def Query.pageAt (q : Query) (size k : Nat) : Query :=
  { q with offset := k * size,limit := some size }

-- What a query finds depends on the entries, the filters and the sort keys alone. Every answer is
-- its stretch of that list, wherever and whenever the reference is resolved, and so the answers for
-- pages of a size, from whichever resolving references, give the list back piece by piece.
theorem execute_finds (q : Query) (decoded : List Fields) :
    ∃ found, q.Finds (Entry.numbered decoded) found ∧
      (∀ other, q.Finds (Entry.numbered decoded) other → other = found) ∧
      found.length = (Entry.numbered decoded).countP (fun e => decide (q.Satisfied e)) ∧
      (∀ e ∈ found, decoded[e.rowId]? = some e.fields) ∧
      (∀ offset limit cache reference now, Resolves cache reference now decoded →
        ∃ r, (execute cache reference { q with offset := offset,limit := limit } now).1 = .ok r ∧
          r.IsStretch { q with offset := offset,limit := limit } found) ∧
      (∀ size, 1 ≤ size → ∀ (cache : Nat → Option Cache) (reference : Nat → String)
        (now : Nat → Time), (∀ k, Resolves (cache k) (reference k) (now k) decoded) →
        ∃ pages : Nat → QueryResult,
          (∀ k, (execute (cache k) (reference k) (q.pageAt size k) (now k)).1 = .ok (pages k) ∧
            (pages k).count = found.length) ∧
          ∀ n, found.length ≤ n * size →
            (List.range n).flatMap (fun k => (pages k).entries) = found) := by
  have finds := q.sorted_finds (Entry.numbered_ascending decoded)
  refine ⟨q.sorted (q.matching (Entry.numbered decoded)),finds,?_,?_,?_,?_,?_⟩
  · intro other others
    exact others.unique finds
  · rw [finds.selected.length_eq,List.countP_eq_length_filter]
  · intro e member
    have passed := finds.selected.mem_iff.mp member
    exact Entry.mem_numbered.mp (List.mem_filter.mp passed).1
  · intro offset limit cache reference now resolves
    exact ⟨_,execute_resolved resolves _,Query.run_stretch _ _⟩
  · intro size _ cache reference now resolves
    refine ⟨fun k => (q.pageAt size k).run (Entry.numbered decoded),?_,?_⟩
    · intro k
      exact ⟨execute_resolved (resolves k) _,(Query.run_stretch _ _).counted⟩
    · intro n enough
      have stretches := flatMap_stretches (q.sorted (q.matching (Entry.numbered decoded))) size n
      rwa [List.take_of_length_le enough] at stretches

-- Of the rows b, cab, c, ab and b those with a b are found, and the two that are equal keep their
-- order. The first page is asked for with the payload itself, the others with a key of a cache
-- that holds it.
theorem execute_finds_paged :
    let q : Query := ⟨[⟨"0",[⟨"contains","b"⟩]⟩],[⟨"0",false⟩],0,none⟩
    let payload := "W3siMCI6ImIifSx7IjAiOiJjYWIifSx7IjAiOiJjIn0seyIwIjoiYWIifSx7IjAiOiJiIn1d"
    let cache := fun k => if k = 0 then none else some ((Cache.create 1 60).put "key" payload 0)
    let reference := fun k => if k = 0 then payload else "key"
    let row := fun text => OrderedMap.ofList [("0",FieldValue.text text)]
    let decoded : List Fields := [row "b",row "cab",row "c",row "ab",row "b"]
    (∀ k, Resolves (cache k) (reference k) 30 decoded) ∧
      ∃ pages : Nat → QueryResult,
        (∀ k, (execute (cache k) (reference k) (q.pageAt 2 k) 30).1 = .ok (pages k) ∧
          (pages k).count = 4) ∧
        (List.range 2).flatMap (fun k => (pages k).entries) =
          [⟨3,row "ab"⟩,⟨0,row "b"⟩,⟨4,row "b"⟩,⟨1,row "cab"⟩] := by
  intro q payload cache reference row decoded
  have given : (Payload.decodeEntries payload).toOption = some decoded := by decide +kernel
  have resolves (k : Nat) : Resolves (cache k) (reference k) 30 decoded := by
    cases k with
    | zero => exact ok_of_toOption given
    | succ k => exact ok_of_toOption given
  have listed : q.Finds (Entry.numbered decoded)
      [⟨3,row "ab"⟩,⟨0,row "b"⟩,⟨4,row "b"⟩,⟨1,row "cab"⟩] := by
    refine ⟨?_,?_,?_⟩
    · decide +kernel
    · decide +kernel
    · decide +kernel
  obtain ⟨found,_,unique,_,_,_,paged⟩ := execute_finds q decoded
  cases unique _ listed
  obtain ⟨pages,answers,whole⟩ := paged 2 (by decide) cache reference (fun _ => 30) resolves
  exact ⟨resolves,pages,answers,whole 2 (by decide)⟩

end TableView
