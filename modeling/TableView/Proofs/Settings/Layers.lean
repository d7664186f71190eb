import Mathlib.Data.List.Basic
import TableView.Settings.File

namespace TableView

structure Layering {α : Type} (merge : α → α → α) (standard : α) : Prop where
  assoc : ∀ a b c, merge (merge a b) c = merge a (merge b c)
  standard_merge : ∀ a, merge standard a = a
  merge_standard : ∀ a, merge a standard = a
  merge_self : ∀ a, merge a a = a

namespace Layering

variable {α β : Type} {m : α → α → α} {s : α} {n : β → β → β} {t : β}

theorem merge_twice (layering : Layering m s) (a b : α) : m (m a b) b = m a b := by
  rw [layering.assoc,layering.merge_self]

theorem value [DecidableEq α] (standard : α) : Layering (layer standard) standard where
  assoc := layer_assoc standard
  standard_merge := standard_layer standard
  merge_standard := layer_standard standard
  merge_self a := by
    unfold layer
    split <;> rfl

theorem beside (first : Layering m s) (second : Layering n t) :
    Layering (fun a b : α × β => (m a.1 b.1,n a.2 b.2)) (s,t) where
  assoc a b c := by rw [first.assoc,second.assoc]
  standard_merge a := by rw [first.standard_merge,second.standard_merge]
  merge_standard a := by rw [first.merge_standard,second.merge_standard]
  merge_self a := by rw [first.merge_self,second.merge_self]

theorem of_injective (values : α → β) (told : Function.Injective values)
    (layering : Layering n t) (merged : ∀ a b, values (m a b) = n (values a) (values b))
    (standard : values s = t) : Layering m s where
  assoc a b c := told (by rw [merged,merged,merged,merged,layering.assoc])
  standard_merge a := told (by rw [merged,standard,layering.standard_merge])
  merge_standard a := told (by rw [merged,standard,layering.merge_standard])
  merge_self a := told (by rw [merged,layering.merge_self])

end Layering

theorem CacheSection.layering : Layering CacheSection.merge CacheSection.standard := by
  refine .of_injective (fun c => (c.enabled,c.space,c.maxEntries,c.maxIdleSeconds)) ?_
    ((Layering.value _).beside ((Layering.value _).beside ((Layering.value _).beside (.value _))))
    (fun _ _ => rfl) rfl
  rintro ⟨_,_,_,_⟩ ⟨_,_,_,_⟩ same
  cases same
  rfl

theorem TableSection.layering : Layering TableSection.merge TableSection.standard := by
  refine .of_injective
    (fun t => (t.headerDetection,t.dateFormats,t.separator,t.sorting,t.filtering)) ?_
    ((Layering.value _).beside ((Layering.value _).beside ((Layering.value _).beside
      ((Layering.value _).beside (.value _))))) (fun _ _ => rfl) rfl
  rintro ⟨_,_,_,_,_⟩ ⟨_,_,_,_,_⟩ same
  cases same
  rfl

theorem PayloadSection.layering : Layering PayloadSection.merge PayloadSection.standard := by
  refine .of_injective compression ?_ (.value _) (fun _ _ => rfl) rfl
  rintro ⟨_⟩ ⟨_⟩ same
  cases same
  rfl

theorem QuerySection.layering : Layering QuerySection.merge QuerySection.standard := by
  refine .of_injective defaultLimit ?_ (.value _) (fun _ _ => rfl) rfl
  rintro ⟨_⟩ ⟨_⟩ same
  cases same
  rfl

theorem LoggingSection.layering : Layering LoggingSection.merge LoggingSection.standard := by
  refine .of_injective level ?_ (.value _) (fun _ _ => rfl) rfl
  rintro ⟨_⟩ ⟨_⟩ same
  cases same
  rfl

namespace Settings

theorem layering : Layering merge standard := by
  refine .of_injective (fun s => (s.version,s.cache,s.table,s.payload,s.query,s.logging)) ?_
    ((Layering.value _).beside (CacheSection.layering.beside (TableSection.layering.beside
      (PayloadSection.layering.beside (QuerySection.layering.beside LoggingSection.layering)))))
    (fun _ _ => rfl) rfl
  rintro ⟨_,_,_,_,_,_⟩ ⟨_,_,_,_,_,_⟩ same
  cases same
  rfl

theorem load_read (path : String) {text : String} {u : Settings} (read : ofToml? text = some u) :
    load path (some text) = u.check.map (fun _ => u) := by
  have made : ofFile path (some text) = .ok u := by
    rw [ofFile,read]
  rw [load,made]
  simp only [bind,Except.bind,pure,Except.pure,layering.standard_merge]
  cases u.check with
  | error fault => rfl
  | ok checked => rfl

-- Layers compose, and a settings file that can be read makes the very settings that it tells, or
-- the fault that is found in them, also where it sets a value to the standard one.
theorem layers_compose :
    (∀ a b c : Settings, (a.merge b).merge c = a.merge (b.merge c)) ∧
    (∀ a : Settings, standard.merge a = a ∧ a.merge standard = a) ∧
    (∀ a b : Settings, (a.merge b).merge b = a.merge b) ∧
    ∀ path text u, ofToml? text = some u →
      (u.check = .ok () → load path (some text) = .ok u) ∧
      ∀ fault, u.check = .error fault → load path (some text) = .error fault := by
  refine ⟨layering.assoc,fun a => ⟨layering.standard_merge a,layering.merge_standard a⟩,
    layering.merge_twice,fun path text u read => ⟨fun fine => ?_,fun fault found => ?_⟩⟩
  · rw [load_read path read,fine]
    rfl
  · rw [load_read path read,found]
    rfl

theorem layers_compose_standard :
    let head := "[cache]\nenabled = true\nmax_entries = 5\n[query]\ndefault_limit = "
    let u (limit : Nat) : Settings := { standard with
      cache := { CacheSection.standard with maxEntries := 5 }, query := ⟨limit⟩ }
    ofToml? (head ++ "7") = some (u 7) ∧ (u 7).check = .ok () ∧
      load "config.toml" (some (head ++ "7")) = .ok (u 7) ∧
      ofToml? (head ++ "0") = some (u 0) ∧ (u 0).check = .error .noLimit ∧
      load "config.toml" (some (head ++ "0")) = .error .noLimit := by
  intro head u
  have fine : ofToml? (head ++ "7") = some (u 7) := by decide +kernel
  have faulty : ofToml? (head ++ "0") = some (u 0) := by decide +kernel
  have accepted : (u 7).check = .ok () := by decide +kernel
  have rejected : (u 0).check = .error .noLimit := by decide +kernel
  exact ⟨fine,accepted,(layers_compose.2.2.2 _ _ _ fine).1 accepted,faulty,rejected,
    (layers_compose.2.2.2 _ _ _ faulty).2 _ rejected⟩

end Settings

end TableView
