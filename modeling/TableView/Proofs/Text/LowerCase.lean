import TableView.Text.Blank
import TableView.Text.LowerCase

namespace TableView.Text

theorem Chars.occursIn_iff {part text : List Char} :
    occursIn part text = true ↔ part <:+: text := by
  induction text with
  | nil => rw [occursIn,List.isEmpty_iff,List.infix_nil]
  | cons c text ih =>
    rw [occursIn,Bool.or_eq_true,List.isPrefixOf_iff_prefix,ih,List.infix_cons_iff]

namespace LowerCase

def endsWord (front back : List Char) : Bool := meetsCased front.reverse && !meetsCased back

-- Each capital sigma of a text ends its word among the texts around it exactly when it ends it on
-- its own.
def Settled (before text behind : List Char) : Prop :=
  ∀ i < text.length, text[i]? = some sigma →
    endsWord (before ++ text.take i) (text.drop (i + 1) ++ behind) =
      endsWord (text.take i) (text.drop (i + 1))

instance (before text behind : List Char) : Decidable (Settled before text behind) := by
  unfold Settled; infer_instance

theorem settled_of_not_mem {text : List Char} (free : sigma ∉ text) (before behind : List Char) :
    Settled before text behind := by
  intro i _ here
  exact absurd (List.mem_of_getElem? here) free

theorem ofChars_ascii {cs : List Char} (ascii : ∀ c ∈ cs, c.toNat < 128) :
    ofChars cs = cs.map Char.toLower := by
  have run (before : List Char) : ofCharsAfter before cs = cs.map Char.toLower := by
    induction cs generalizing before with
    | nil => rfl
    | cons c cs ih =>
      obtain ⟨small,others⟩ := List.forall_mem_cons.mp ascii
      have other : c ≠ sigma := by
        rintro rfl
        exact absurd small (by decide)
      rw [ofCharsAfter,if_neg other,ofChar,if_pos small,ih others]
      rfl
  exact run []

def stretch (before behind : List Char) : List Char → List Char
  | [] => []
  | c :: rest =>
    (if c = sigma then [ofSigma before (rest ++ behind)] else ofChar c) ++
      stretch (c :: before) behind rest

theorem ofCharsAfter_append (before front back : List Char) :
    ofCharsAfter before (front ++ back) =
      stretch before back front ++ ofCharsAfter (front.reverse ++ before) back := by
  induction front generalizing before with
  | nil => rfl
  | cons c front ih =>
    rw [List.cons_append,ofCharsAfter,ih,stretch,List.append_assoc,List.reverse_cons,
      List.append_assoc,List.singleton_append]

theorem ofCharsAfter_eq_stretch (before text : List Char) :
    ofCharsAfter before text = stretch before [] text := by
  have whole := ofCharsAfter_append before text []
  rwa [List.append_nil,ofCharsAfter,List.append_nil] at whole

theorem ofChars_append (front text back : List Char) :
    ofChars (front ++ text ++ back) =
      stretch [] (text ++ back) front ++ stretch front.reverse back text ++
        ofCharsAfter (text.reverse ++ front.reverse) back := by
  rw [ofChars,List.append_assoc,ofCharsAfter_append,ofCharsAfter_append,List.append_nil,
    List.append_assoc]

theorem stretch_length (before behind other beyond text : List Char) :
    (stretch before behind text).length = (stretch other beyond text).length := by
  induction text generalizing before other with
  | nil => rfl
  | cons c text ih =>
    rw [stretch,stretch,List.length_append,List.length_append,ih (c :: before) (c :: other)]
    split <;> rfl

theorem ofSigma_eq_iff {before behind other beyond : List Char} :
    ofSigma before behind = ofSigma other beyond ↔
      (meetsCased before && !meetsCased behind) = (meetsCased other && !meetsCased beyond) := by
  have apart : Char.ofNat 0x3C2 ≠ Char.ofNat 0x3C3 := by decide
  rw [ofSigma,ofSigma]
  cases meetsCased before && !meetsCased behind
  all_goals cases meetsCased other && !meetsCased beyond
  all_goals simp [apart,apart.symm]

-- The induction is along the text, with what was passed of it kept in reverse.
theorem stretch_eq_iff (passed before behind text : List Char) :
    stretch (passed ++ before) behind text = stretch passed [] text ↔
      ∀ i < text.length, text[i]? = some sigma →
        ofSigma ((text.take i).reverse ++ (passed ++ before)) (text.drop (i + 1) ++ behind) =
          ofSigma ((text.take i).reverse ++ passed) (text.drop (i + 1)) := by
  induction text generalizing passed with
  | nil => simp [stretch]
  | cons c text ih =>
    have later := ih (c :: passed)
    rw [List.cons_append] at later
    have shifted : (∀ i < (c :: text).length, (c :: text)[i]? = some sigma →
        ofSigma (((c :: text).take i).reverse ++ (passed ++ before))
            ((c :: text).drop (i + 1) ++ behind) =
          ofSigma (((c :: text).take i).reverse ++ passed) ((c :: text).drop (i + 1))) ↔
        (c = sigma → ofSigma (passed ++ before) (text ++ behind) = ofSigma passed text) ∧
        ∀ i < text.length, text[i]? = some sigma →
          ofSigma ((text.take i).reverse ++ (c :: (passed ++ before)))
              (text.drop (i + 1) ++ behind) =
            ofSigma ((text.take i).reverse ++ c :: passed) (text.drop (i + 1)) := by
      rw [List.length_cons,Nat.forall_lt_succ_left]
      simp
    rw [stretch,stretch,shifted,←later,List.append_nil]
    split
    · rename_i same
      simp [same]
    · rename_i other
      simp [other]

theorem stretch_eq_ofChars_iff (before text behind : List Char) :
    stretch before.reverse behind text = ofChars text ↔ Settled before text behind := by
  have places := stretch_eq_iff [] before.reverse behind text
  rw [ofChars,ofCharsAfter_eq_stretch]
  simpa only [List.nil_append,List.append_nil,ofSigma_eq_iff,Settled,endsWord,
    List.reverse_append] using places

theorem ofChars_infix {before text behind : List Char} (settled : Settled before text behind) :
    ofChars text <:+: ofChars (before ++ text ++ behind) := by
  rw [ofChars_append,(stretch_eq_ofChars_iff before text behind).mpr settled]
  exact List.infix_append _ _ _

theorem ofChars_prefix_iff {text behind : List Char} :
    ofChars text <+: ofChars (text ++ behind) ↔ Settled [] text behind := by
  have front : ofChars (text ++ behind) =
      stretch [] behind text ++ ofCharsAfter text.reverse behind := by
    rw [ofChars,ofCharsAfter_append,List.append_nil]
  have length : (ofChars text).length = (stretch [] behind text).length := by
    rw [ofChars,ofCharsAfter_eq_stretch]
    exact stretch_length _ _ _ _ _
  rw [←stretch_eq_ofChars_iff,front,List.reverse_nil]
  constructor
  · intro starts
    have within := List.prefix_of_prefix_length_le starts (List.prefix_append _ _)
      (Nat.le_of_eq length)
    exact (within.eq_of_length length).symm
  · intro same
    rw [same]
    exact List.prefix_append _ _

theorem toLower_cases (c : Char) : c.toLower = c ∨ (65 ≤ c.toNat ∧ c.toNat ≤ 90) := by
  by_cases capital : c.val ≥ 'A'.val ∧ c.val ≤ 'Z'.val
  · exact .inr ⟨UInt32.le_iff_toNat_le.mp capital.1,UInt32.le_iff_toNat_le.mp capital.2⟩
  · exact .inl (dif_neg capital)

-- What is the same for basic capital letters and their small forms does not see the case of any
-- character.
theorem unseen_case {α : Type} {f : Char → α}
    (capitals : ∀ i < 26, f (Char.ofNat (65 + i)).toLower = f (Char.ofNat (65 + i))) (c : Char) :
    f c.toLower = f c := by
  rcases toLower_cases c with same | ⟨least,greatest⟩
  · rw [same]
  · have same := capitals (c.toNat - 65) (by omega)
    rwa [Nat.add_sub_cancel' least,Char.ofNat_toNat] at same

theorem isCaseIgnorable_toLower (c : Char) : isCaseIgnorable c.toLower = isCaseIgnorable c :=
  unseen_case (by decide) c

theorem isCased_toLower (c : Char) : isCased c.toLower = isCased c := unseen_case (by decide) c

theorem ofChar_toLower (c : Char) : ofChar c.toLower = ofChar c := unseen_case (by decide) c

theorem toLower_eq_sigma (c : Char) : (c.toLower = sigma) = (c = sigma) :=
  unseen_case (f := fun c => c = sigma) (by decide) c

theorem meetsCased_toLower (cs : List Char) : meetsCased (cs.map Char.toLower) = meetsCased cs := by
  induction cs with
  | nil => rfl
  | cons c cs ih =>
    rw [List.map_cons,meetsCased,meetsCased,isCaseIgnorable_toLower,isCased_toLower,ih]

theorem ofSigma_toLower (before rest : List Char) :
    ofSigma (before.map Char.toLower) (rest.map Char.toLower) = ofSigma before rest := by
  rw [ofSigma,ofSigma,meetsCased_toLower,meetsCased_toLower]

theorem ofCharsAfter_toLower (before cs : List Char) :
    ofCharsAfter (before.map Char.toLower) (cs.map Char.toLower) = ofCharsAfter before cs := by
  induction cs generalizing before with
  | nil => rfl
  | cons c cs ih =>
    have later := ih (c :: before)
    rw [List.map_cons] at later
    simp only [List.map_cons,ofCharsAfter,ofSigma_toLower,ofChar_toLower,toLower_eq_sigma,later]

end LowerCase

-- Texts that differ in nothing but the case of basic letters; `Char.toLower` knows no others.
def Recased (s t : String) : Prop := s.toList.map Char.toLower = t.toList.map Char.toLower

instance (s t : String) : Decidable (Recased s t) := by unfold Recased; infer_instance

theorem Recased.ofChars {s t : String} (recased : Recased s t) :
    LowerCase.ofChars s.toList = LowerCase.ofChars t.toList := by
  have small (cs : List Char) : LowerCase.ofChars (cs.map Char.toLower) = LowerCase.ofChars cs :=
    LowerCase.ofCharsAfter_toLower [] cs
  rw [←small s.toList,recased,small]

end TableView.Text
