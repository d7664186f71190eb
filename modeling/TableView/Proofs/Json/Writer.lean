import TableView.Json.Writer
import TableView.Proofs.Text.Numeral

namespace TableView

def Printable (cs : List Char) : Prop := ∀ c ∈ cs, 32 ≤ c.toNat

@[simp] theorem printable_nil : Printable [] := fun _ member => absurd member List.not_mem_nil

@[simp] theorem printable_cons {c : Char} {cs : List Char} :
    Printable (c :: cs) ↔ 32 ≤ c.toNat ∧ Printable cs := List.forall_mem_cons

@[simp] theorem printable_append {a b : List Char} :
    Printable (a ++ b) ↔ Printable a ∧ Printable b :=
  List.forall_mem_append

theorem printable_replicate (n : Nat) {c : Char} (printed : 32 ≤ c.toNat) :
    Printable (List.replicate n c) := by
  intro d member
  rw [List.eq_of_mem_replicate member]
  exact printed

theorem printable_ofNat (n : Nat) : Printable (Text.Numeral.ofNat n) := by
  have digits : ∀ d < 10, 32 ≤ (Text.Numeral.digit d).toNat := by decide
  induction n using Text.Numeral.ofNat.induct with
  | case1 n single =>
    rw [Text.Numeral.ofNat,if_pos single]
    exact printable_cons.mpr ⟨digits n single,printable_nil⟩
  | case2 n several ih =>
    rw [Text.Numeral.ofNat,if_neg several]
    exact printable_append.mpr ⟨ih,printable_cons.mpr
      ⟨digits _ (Nat.mod_lt n (by decide)),printable_nil⟩⟩

theorem printable_layout (d : Number.Shortest.Decimal) : Printable (Number.Shortest.layout d) := by
  have digits := printable_ofNat d.digits
  have front (k : Nat) : Printable ((Text.Numeral.ofNat d.digits).take k) :=
    fun c member => digits c (List.mem_of_mem_take member)
  have back (k : Nat) : Printable ((Text.Numeral.ofNat d.digits).drop k) :=
    fun c member => digits c (List.mem_of_mem_drop member)
  have zeros (n : Nat) := printable_replicate n (show 32 ≤ '0'.toNat by decide)
  simp only [Number.Shortest.layout]
  split
  · split
    · simp [zeros,digits]
    split
    · simp [zeros,digits]
    · simp [front,back]
  · have fraction : Printable (if ((Text.Numeral.ofNat d.digits).length == 1) = true then [] else
        '.' :: (Text.Numeral.ofNat d.digits).drop 1) := by
      split
      · exact printable_nil
      · exact printable_cons.mpr ⟨by decide,back 1⟩
    have sign (lead : Int) : 32 ≤ (if lead < 0 then '-' else '+').toNat := by split <;> decide
    simp only [printable_append,printable_cons]
    exact ⟨⟨⟨front 1,fraction⟩,by decide,printable_nil⟩,sign _,printable_ofNat _⟩

namespace Json

theorem printable_number (n : Number) : Printable n.write := by
  cases n with
  | integer i =>
    simp only [Number.write,Text.Numeral.ofInt]
    split
    · exact printable_cons.mpr ⟨by decide,printable_ofNat _⟩
    · exact printable_ofNat _
  | real x =>
    have body : Printable (if x.isZero then ['0','.','0'] else
        TableView.Number.Shortest.layout (TableView.Number.Shortest.shortest x).strip) := by
      split
      · simp
      · exact printable_layout _
    simp only [Number.write,TableView.Number.Shortest.write]
    split
    · exact printable_cons.mpr ⟨by decide,body⟩
    · exact body

theorem printable_escapeChar (c : Char) : Printable (escapeChar c) := by
  have pair {d : Char} (printed : 32 ≤ d.toNat) : Printable ['\\',d] :=
    printable_cons.mpr ⟨by decide,printable_cons.mpr ⟨printed,printable_nil⟩⟩
  have hex : ∀ n < 16, 32 ≤ (Text.Quoted.hexDigit n).toNat := by decide
  rw [escapeChar]
  split
  · exact pair (by decide)
  split
  · exact pair (by decide)
  split
  · exact pair (by decide)
  split
  · exact pair (by decide)
  split
  · exact pair (by decide)
  split
  · exact pair (by decide)
  split
  · exact pair (by decide)
  split
  · rename_i control
    have high := hex (c.toNat / 16) (by omega)
    have low := hex (c.toNat % 16) (Nat.mod_lt _ (by decide))
    simp [escapeControl,high,low]
  · rename_i printed
    exact printable_cons.mpr ⟨Nat.not_lt.mp printed,printable_nil⟩

theorem printable_string (s : String) : Printable (writeString s) := by
  refine printable_append.mpr ⟨printable_cons.mpr ⟨by decide,?_⟩,printable_cons.mpr
    ⟨by decide,printable_nil⟩⟩
  intro c member
  obtain ⟨d,_,escaped⟩ := List.mem_flatMap.mp member
  exact printable_escapeChar d c escaped

mutual

theorem printable_write (v : Json) : Printable (write v) := by
  match v with
  | .null | .bool true | .bool false => simp [write,writeBool]
  | .number n => exact printable_number n
  | .string s => exact printable_string s
  | .array [] | .object [] => simp [write]
  | .array (item :: rest) =>
    simp only [write,printable_append,printable_cons]
    exact ⟨⟨by decide,printable_write item⟩,printable_writeItems rest⟩
  | .object ((name,value) :: rest) =>
    simp only [write,printable_append,printable_cons]
    exact ⟨⟨⟨by decide,printable_string name⟩,by decide,printable_write value⟩,
      printable_writeMembers rest⟩

theorem printable_writeItems (items : List Json) : Printable (writeItems items) := by
  match items with
  | [] => exact printable_cons.mpr ⟨by decide,printable_nil⟩
  | item :: rest =>
    simp only [writeItems,printable_append,printable_cons]
    exact ⟨⟨by decide,printable_write item⟩,printable_writeItems rest⟩

theorem printable_writeMembers (members : List (String × Json)) :
    Printable (writeMembers members) := by
  match members with
  | [] => exact printable_cons.mpr ⟨by decide,printable_nil⟩
  | (name,value) :: rest =>
    simp only [writeMembers,printable_append,printable_cons]
    exact ⟨⟨⟨by decide,printable_string name⟩,by decide,printable_write value⟩,
      printable_writeMembers rest⟩

end

end Json

end TableView
