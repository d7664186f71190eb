import Mathlib.Data.List.Forall2
import TableView.Proofs.Payload.Rows
import TableView.Session.Session

namespace TableView

namespace Query

inductive Told (columns : List Column) : String → String → Prop
  | itself (property : String) : Told columns property property
  | ordinal {front back : List Column} {c : Column} (split : columns = front ++ c :: back)
      (first : ∀ d ∈ front, d.name ≠ c.name) (noKey : ∀ d ∈ columns, d.key ≠ c.name) :
      Told columns c.name c.key

structure Renamed (columns : List Column) (q r : Query) : Prop where
  filters : List.Forall₂ (fun f g => Told columns f.property g.property ∧
    g.constraints = f.constraints) q.filters r.filters
  sort : List.Forall₂ (fun a b => Told columns a.property b.property ∧
    b.descending = a.descending) q.sort r.sort
  offset : r.offset = q.offset
  limit : r.limit = q.limit

-- Properties that stand for no other: ordinals, and what is the name of no column.
def Settled (columns : List Column) (property : String) : Prop :=
  property ∈ columns.map Column.key ∨ property ∉ columns.map (·.name)

variable {columns : List Column}

-- A key comes before a name, whichever columns have it for their name.
theorem resolveProperty_key {property : String} (listed : property ∈ columns.map Column.key) :
    resolveProperty columns property = property := by
  obtain ⟨c,member,rfl⟩ := List.mem_map.mp listed
  rw [resolveProperty,if_pos]
  exact List.any_eq_true.mpr ⟨c,member,beq_self_eq_true _⟩

theorem resolveProperty_name {front back : List Column} {c : Column}
    (split : columns = front ++ c :: back) (first : ∀ d ∈ front, d.name ≠ c.name)
    (noKey : ∀ d ∈ columns, d.key ≠ c.name) : resolveProperty columns c.name = c.key := by
  have other : columns.any (fun d => d.key == c.name) = false := by
    simpa using noKey
  have found : columns.find? (fun d => d.name == c.name) = some c := by
    rw [split,List.find?_append,List.find?_eq_none.mpr (by simpa using first)]
    simp
  rw [resolveProperty,other,found]
  rfl

theorem resolveProperty_settled {property : String} (settled : Settled columns property) :
    resolveProperty columns property = property := by
  rcases settled with key | unnamed
  · exact resolveProperty_key key
  · have absent : columns.find? (fun c => c.name == property) = none := by
      simpa using unnamed
    rw [resolveProperty,absent,ite_self]

theorem told_resolveProperty (columns : List Column) (property : String) :
    Told columns property (resolveProperty columns property) := by
  by_cases key : property ∈ columns.map Column.key
  · rw [resolveProperty_key key]
    exact .itself property
  cases named : columns.find? (fun c => c.name == property) with
  | none =>
    rw [resolveProperty_settled (.inr (by simpa using named))]
    exact .itself property
  | some c =>
    obtain ⟨same,front,back,split,first⟩ := List.find?_eq_some_iff_append.mp named
    obtain rfl : c.name = property := by simpa using same
    have first : ∀ d ∈ front, d.name ≠ c.name := by simpa using first
    have noKey : ∀ d ∈ columns, d.key ≠ c.name := by simpa using key
    rw [resolveProperty_name split first noKey]
    exact .ordinal split first noKey

theorem Told.resolveProperty_eq {property other : String} (told : Told columns property other) :
    resolveProperty columns other = resolveProperty columns property := by
  cases told with
  | itself => rfl
  | @ordinal front back c split first noKey =>
    have listed : c.key ∈ columns.map Column.key :=
      List.mem_map_of_mem (split ▸ List.mem_append_right _ List.mem_cons_self)
    rw [resolveProperty_name split first noKey,resolveProperty_key listed]

theorem renamed_resolve (columns : List Column) (q : Query) :
    q.Renamed columns (q.resolve columns) where
  filters := by
    rw [resolve,List.forall₂_map_right_iff,List.forall₂_same]
    exact fun f _ => ⟨told_resolveProperty columns f.property,rfl⟩
  sort := by
    rw [resolve,List.forall₂_map_right_iff,List.forall₂_same]
    exact fun a _ => ⟨told_resolveProperty columns a.property,rfl⟩
  offset := rfl
  limit := rfl

theorem map_of_forall₂ {f : α → β} {as bs : List α}
    (same : List.Forall₂ (fun a b => f b = f a) as bs) : bs.map f = as.map f := by
  induction same with
  | nil => rfl
  | cons one _ ih => rw [List.map_cons,List.map_cons,one,ih]

theorem Renamed.resolve_eq {q r : Query} (renamed : q.Renamed columns r) :
    r.resolve columns = q.resolve columns := by
  obtain ⟨filters,sort,offset,limit⟩ := renamed
  rw [resolve,resolve,Query.mk.injEq]
  refine ⟨map_of_forall₂ (filters.imp ?_),map_of_forall₂ (sort.imp ?_),offset,limit⟩
  · rintro f g ⟨told,same⟩
    rw [told.resolveProperty_eq,same]
  · rintro a b ⟨told,same⟩
    rw [told.resolveProperty_eq,same]

end Query

theorem Session.query_resolve {columns : List Column} {fields : String}
    (decoded : Payload.decodeColumns fields = .ok columns) (s : Session) (entries : String)
    (q : Query) (now : Time) :
    s.query entries (some fields) q now = s.query entries none (q.resolve columns) now := by
  have resolved : s.resolved (some fields) q = s.resolved none (q.resolve columns) := by
    simp only [Session.resolved,decoded]
    rfl
  rw [Session.query,resolved,Session.query]

-- A query that tells a column by its name is answered as the one that tells it by its ordinal.
-- Resolving names changes nothing but names, and nothing more when it is done again; ordinals are
-- left alone, whatever columns are called, and so is what no column is called.
theorem Session.query_by_name (columns : List Column) (q : Query) :
    (∀ (r : Query) (fields : String), q.Renamed columns r →
      Payload.decodeColumns fields = .ok columns →
      ∀ (s : Session) (entries : String) (now : Time),
        s.query entries (some fields) r now = s.query entries (some fields) q now) ∧
    (q.resolve columns).resolve columns = q.resolve columns ∧
    q.Renamed columns (q.resolve columns) ∧
    (∀ (i : Nat) (f : Filter), q.filters[i]? = some f → Query.Settled columns f.property →
      (q.resolve columns).filters[i]? = some f) ∧
    (∀ (i : Nat) (a : SortEntry), q.sort[i]? = some a → Query.Settled columns a.property →
      (q.resolve columns).sort[i]? = some a) := by
  have renamed := Query.renamed_resolve columns q
  refine ⟨?_,renamed.resolve_eq,renamed,?_,?_⟩
  · intro r fields renamed decoded s entries now
    rw [query_resolve decoded,query_resolve decoded,renamed.resolve_eq]
  · intro i f found settled
    rw [Query.resolve,List.getElem?_map,found,Option.map_some,
      Query.resolveProperty_settled settled]
  · intro i a found settled
    rw [Query.resolve,List.getElem?_map,found,Option.map_some,
      Query.resolveProperty_settled settled]

theorem Session.query_by_name_crossed :
    let columns : List Column := [⟨0,"1"⟩,⟨1,"0"⟩,⟨2,""⟩,⟨3,"Size"⟩,⟨4,"3"⟩,⟨5,"Size"⟩,⟨6,""⟩]
    let fields := Payload.encodeColumns .bzip2 columns
    let q : Query := ⟨[⟨"Size",[.of .equals "b"]⟩,⟨"1",[]⟩,⟨"Size",[]⟩],
      [⟨"",true⟩,⟨"0",false⟩,⟨"size",false⟩],2,none⟩
    let r : Query := ⟨[⟨"3",[.of .equals "b"]⟩,⟨"1",[]⟩,⟨"Size",[]⟩],
      [⟨"2",true⟩,⟨"0",false⟩,⟨"size",false⟩],2,none⟩
    Payload.decodeColumns fields = .ok columns ∧ q.Renamed columns r ∧
      (∀ (s : Session) (entries : String) (now : Time),
        s.query entries (some fields) r now = s.query entries (some fields) q now) ∧
      q.resolve columns = { r with filters := [⟨"3",[.of .equals "b"]⟩,⟨"1",[]⟩,⟨"3",[]⟩] } := by
  intro columns fields q r
  have decoded : Payload.decodeColumns fields = .ok columns := by
    have fits : Payload.Storable .bzip2 fields := fun xz => by cases xz
    rw [Payload.decodeColumns_encodeColumns fits]
    rfl
  have sizes : Query.resolveProperty columns "Size" = "3" := by decide +kernel
  have size : Query.Told columns "Size" "3" := sizes ▸ Query.told_resolveProperty columns "Size"
  have blanks : Query.resolveProperty columns "" = "2" := by decide +kernel
  have blank : Query.Told columns "" "2" := blanks ▸ Query.told_resolveProperty columns ""
  have renamed : q.Renamed columns r :=
    ⟨.cons ⟨size,rfl⟩ (.cons ⟨.itself _,rfl⟩ (.cons ⟨.itself _,rfl⟩ .nil)),
      .cons ⟨blank,rfl⟩ (.cons ⟨.itself _,rfl⟩ (.cons ⟨.itself _,rfl⟩ .nil)),rfl,rfl⟩
  exact ⟨decoded,renamed,(query_by_name columns q).1 r fields renamed decoded,by decide +kernel⟩

end TableView
