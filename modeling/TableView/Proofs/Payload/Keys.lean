import TableView.Proofs.Outcome
import TableView.Proofs.Payload.Members

namespace TableView.Payload

open Text.Chars (dropStart?_append dropStart?_iff dropStart?_absent)
open Text.Numeral (Spelled ordinalLimit spelled_ofNat toOrdinal?_iff)

theorem ordinalOf_iff {cs : List Char} {n : Nat} :
    ordinalOf cs = .ok n ↔ n < ordinalLimit ∧ Spelled cs n := by
  rw [←toOrdinal?_iff,ordinalOf]
  cases Text.Numeral.toOrdinal? cs <;> simp

def Spells (key : String) (place : Nat × Slot) : Prop :=
  place.1 < ordinalLimit ∧
    ∃ numeral, key.toList = slotMark place.2 ++ numeral ∧ Spelled numeral place.1

theorem spells_ordinal {key : String} {numeral : List Char} {n : Nat} {slot : Slot}
    (whole : key.toList = slotMark slot ++ numeral) (read : ordinalOf numeral = .ok n) :
    Spells key (n,slot) := by
  obtain ⟨small,spelled⟩ := ordinalOf_iff.mp read
  exact ⟨small,numeral,whole,spelled⟩

theorem slotOf_iff {key : String} {place : Nat × Slot} :
    slotOf key = .ok place ↔ Spells key place := by
  constructor
  · intro given
    unfold slotOf at given
    split at given
    · rename_i rest marked
      obtain ⟨n,read,rfl⟩ := ok_of_map given
      exact spells_ordinal (dropStart?_iff.mp marked) read
    · split at given
      · rename_i rest marked
        obtain ⟨n,read,rfl⟩ := ok_of_map given
        exact spells_ordinal (dropStart?_iff.mp marked) read
      · obtain ⟨n,read,rfl⟩ := ok_of_map given
        exact spells_ordinal rfl read
  · obtain ⟨n,slot⟩ := place
    rintro ⟨small,numeral,whole,spelled⟩
    have read : ordinalOf numeral = .ok n := ordinalOf_iff.mpr ⟨small,spelled⟩
    rw [slotOf,whole]
    cases slot with
    | display =>
      have noText := dropStart?_absent (fun rest => (spelled_unmarked spelled rest).1)
      have noDate := dropStart?_absent (fun rest => (spelled_unmarked spelled rest).2)
      simp only [slotMark,List.nil_append,noText,noDate,read]
      rfl
    | text =>
      rw [slotMark,dropStart?_append]
      simp only [read]
      rfl
    | date =>
      have other : Text.Chars.dropStart? textMark.toList (slotMark .date ++ numeral) = none := rfl
      rw [other,slotMark,dropStart?_append]
      simp only [read]
      rfl

theorem Spells.unique {key : String} {a b : Nat × Slot} (first : Spells key a)
    (second : Spells key b) : a = b :=
  Except.ok.inj ((slotOf_iff.mpr first).symm.trans (slotOf_iff.mpr second))

theorem slotOf_slotKey {ordinal : Nat} (small : ordinal < ordinalLimit) (slot : Slot) :
    slotOf (slotKey ordinal slot) = .ok (ordinal,slot) :=
  slotOf_iff.mpr ⟨small,_,slotKey_toList ordinal slot,spelled_ofNat ordinal⟩

theorem Spells.slotKey {ordinal : Nat} {slot : Slot} {place : Nat × Slot}
    (spells : Spells (slotKey ordinal slot) place) : place = (ordinal,slot) := by
  obtain ⟨_,numeral,whole,spelled⟩ := spells
  rw [slotKey_toList] at whole
  obtain ⟨same,rfl⟩ := slotMark_injective (spelled_ofNat ordinal) spelled whole
  exact Prod.ext (spelled.unique (spelled_ofNat ordinal)) same.symm

end TableView.Payload
