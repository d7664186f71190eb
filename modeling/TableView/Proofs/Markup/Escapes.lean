import Mathlib.Data.List.TakeWhile
import TableView.Proofs.Markup.Reading

namespace TableView.Inline

def escaped (content : List Char) : List Char := (takers content).filterMap List.head?

def earlier (sign : Char) : List Char := signs.takeWhile (· ≠ sign)

def twinned : List Char → Bool
  | [] => false
  | c :: rest => c ∈ signs ∧ (rest.dropWhile (· ∈ earlier c)).head? = some c

def twins (sign : Char) (content : List Char) : Nat :=
  content.tails.countP (fun q => q.head? = some sign ∧ twinned q)

-- No pass knows of tildes. A sign that a tilde has taken can be the first of two equal ones, and
-- then it is gone with them; it is never the second, since its tilde stands in front of it.
def exposed (content : List Char) : List Char → Bool
  | [] => false
  | c :: rest => twinned (c :: rest) ∧ 2 ≤ twins c content

def escapedBut (lost : List Char → Bool) (content : List Char) : List Char :=
  ((takers content).filter (fun q => ¬ lost q)).filterMap List.head?

def spared (content : List Char) : List Char := escapedBut (exposed content) content

section Cuts

-- What a pass leaves of a text from which it takes doubled signs. The mark tells that the first of
-- two is gone and the second one is next.
inductive Cut (sign : Char) : Bool → List Char → List Char → Prop where
  | done : Cut sign false [] []
  | kept (c : Char) : Cut sign false text after → Cut sign false (c :: text) (c :: after)
  | first : Cut sign true text after → Cut sign false (sign :: text) after
  | second : Cut sign false text after → Cut sign true (sign :: text) after

variable {sign : Char} {text inner after : List Char}

theorem Cut.begins (cut : Cut sign true text after) : text.head? = some sign := by
  cases cut
  rfl

theorem Cut.behind (front : List Char) (cut : Cut sign false text after) :
    Cut sign false (front ++ text) (front ++ after) := by
  induction front with
  | nil => exact cut
  | cons c front ih => exact .kept c ih

theorem untilMark_around (found : untilMark sign text = some (inner,after)) :
    text = inner ++ doubled sign ++ after := by
  induction text generalizing inner with
  | nil => cases found
  | cons c text ih =>
    rw [untilMark] at found
    split at found
    · cases found
    split at found
    · rename_i starts
      obtain ⟨rest,rfl⟩ := List.isPrefixOf_iff_prefix.mp starts
      cases found
      rfl
    · obtain ⟨⟨inner,after⟩,later,equal⟩ := Option.map_eq_some_iff.mp found
      cases equal
      rw [ih later]
      rfl

theorem marked?_around (found : marked? sign text = some (inner,after)) :
    text = doubled sign ++ (inner ++ doubled sign ++ after) := by
  rw [marked?] at found
  split at found
  · rename_i starts
    obtain ⟨rest,rfl⟩ := List.isPrefixOf_iff_prefix.mp starts
    exact congrArg (doubled sign ++ ·) (untilMark_around found)
  · cases found

theorem cut_setApart (sign : Char) (text : List Char) :
    Cut sign false text (setApart (plainStyle sign) text) := by
  -- The text behind a closing sign is shorter by four characters and more.
  induction size : text.length using Nat.strongRecOn generalizing text with
  | ind n ih =>
    subst size
    cases found : marked? (plainStyle sign).sign text with
    | some parts =>
      obtain ⟨inner,back⟩ := parts
      have later := ih back.length (marked?_length found) back rfl
      have kept : Cut sign false (inner ++ doubled sign ++ back)
          (inner ++ setApart (plainStyle sign) back) := by
        rw [List.append_assoc]
        exact Cut.behind inner (.first (.second later))
      have parted : setApart (plainStyle sign) text = inner ++ setApart (plainStyle sign) back := by
        simpa [plainStyle] using setApart_marked found
      rw [parted,marked?_around found]
      exact .first (.second kept)
    | none =>
      cases text with
      | nil =>
        rw [setApart]
        exact .done
      | cons c text =>
        rw [setApart_unmarked found]
        exact .kept c (ih text.length (Nat.lt_succ_self _) text rfl)

def sideBySide (sign : Char) (text : List Char) : Nat :=
  text.tails.countP ((doubled sign).isPrefixOf ·)

theorem sideBySide_cons (c : Char) (text : List Char) : sideBySide sign (c :: text) =
    sideBySide sign text + if (doubled sign).isPrefixOf (c :: text) then 1 else 0 := by
  rw [sideBySide,List.tails_cons,List.countP_cons]
  rfl

theorem sideBySide_other {c : Char} (other : sign ≠ c) (text : List Char) :
    sideBySide sign (c :: text) = sideBySide sign text := by
  rw [sideBySide_cons,if_neg,Nat.add_zero]
  rw [List.isPrefixOf_iff_prefix]
  exact fun starts => other (List.cons_prefix_cons.mp starts).1

theorem sideBySide_behind (sign : Char) (front text : List Char) :
    sideBySide sign text ≤ sideBySide sign (front ++ text) := by
  induction front with
  | nil => exact Nat.le_refl _
  | cons c front ih =>
    rw [List.cons_append,sideBySide_cons]
    exact ih.trans (Nat.le_add_right _ _)

theorem sideBySide_doubled (sign : Char) (text : List Char) :
    sideBySide sign text < sideBySide sign (doubled sign ++ text) := by
  have rest : sideBySide sign text ≤ sideBySide sign (sign :: text) :=
    sideBySide_behind sign [sign] text
  change _ < sideBySide sign (sign :: sign :: text)
  rw [sideBySide_cons,if_pos (doubled_starts sign text)]
  exact Nat.lt_succ_of_le rest

theorem setApart_single (few : sideBySide sign text < 2) :
    setApart (plainStyle sign) text = text := by
  induction text with
  | nil =>
    rw [setApart]
    rfl
  | cons c text ih =>
    cases found : marked? (plainStyle sign).sign (c :: text) with
    | some parts =>
      obtain ⟨inner,back⟩ := parts
      have opening := sideBySide_doubled sign (inner ++ doubled sign ++ back)
      have closing := sideBySide_doubled sign back
      have inside := sideBySide_behind sign inner (doubled sign ++ back)
      have whole : c :: text = doubled sign ++ (inner ++ doubled sign ++ back) :=
        marked?_around found
      rw [←whole] at opening
      rw [←List.append_assoc] at inside
      omega
    | none =>
      rw [setApart_unmarked found,ih (Nat.lt_of_le_of_lt (sideBySide_behind sign [c] text) few)]

end Cuts

section Thinned

-- A text from which passes have taken signs. What a tilde has taken is there with its tilde, or was
-- an exposed sign; a sign that stands for itself may be gone, if it is of those looked for so far.
inductive Thinned (whole gone : List Char) : List Char → List Char → Prop where
  | done : Thinned whole gone [] []
  | last : Thinned whole gone ['~'] ['~']
  | taken (c : Char) : Thinned whole gone content text →
      Thinned whole gone ('~' :: c :: content) ('~' :: c :: text)
  | lost : exposed whole (c :: content) = true → Thinned whole gone content text →
      Thinned whole gone ('~' :: c :: content) ('~' :: text)
  | plain : c ≠ '~' → Thinned whole gone content text →
      Thinned whole gone (c :: content) (c :: text)
  | dropped : c ≠ '~' → c ∈ gone → Thinned whole gone content text →
      Thinned whole gone (c :: content) text

theorem Thinned.refl (whole content : List Char) : Thinned whole [] content content := by
  fun_induction takers content with
  | case1 => exact .done
  | case2 c rest ih => exact .taken c ih
  | case3 c rest other ih =>
    by_cases tilde : c = '~'
    · cases rest with
      | nil =>
        subst tilde
        exact .last
      | cons d rest => cases other d rest tilde rfl
    · exact .plain tilde ih

variable {whole gone content text after : List Char} {sign : Char}

theorem Thinned.mono (thinned : Thinned whole gone content text) {more : List Char}
    (grown : gone ⊆ more) : Thinned whole more content text := by
  induction thinned with
  | done => exact .done
  | last => exact .last
  | taken c _ ih => exact .taken c ih
  | lost away _ ih => exact .lost away ih
  | plain other _ ih => exact .plain other ih
  | dropped other listed _ ih => exact .dropped other (grown listed) ih

theorem twins_cons (c : Char) (content : List Char) : twins sign (c :: content) =
    twins sign content + if c = sign ∧ twinned (c :: content) = true then 1 else 0 := by
  rw [twins,List.tails_cons,List.countP_cons]
  simp [twins]

theorem twins_le_cons (c : Char) (content : List Char) :
    twins sign content ≤ twins sign (c :: content) := by
  rw [twins_cons]
  exact Nat.le_add_right _ _

theorem ne_tilde (listed : sign ∈ signs) : sign ≠ '~' := by
  rintro rfl
  simp [signs] at listed

section Sign
variable (listed : sign ∈ signs) (before : gone ⊆ earlier sign)
include listed before

theorem Thinned.twinned_cons (thinned : Thinned whole gone content text)
    (first : text.head? = some sign) : twinned (sign :: content) = true := by
  have tilde := ne_tilde listed
  have self : sign ∉ earlier sign := fun inside => by simpa using List.mem_takeWhile_imp inside
  have next : (content.dropWhile (· ∈ earlier sign)).head? = some sign := by
    induction thinned with
    | done => cases first
    | last | taken | lost =>
      cases first
      exact absurd rfl tilde
    | plain =>
      cases first
      rw [List.dropWhile_cons_of_neg (by simpa using self)]
      rfl
    | dropped _ away _ ih =>
      rw [List.dropWhile_cons_of_pos (by simpa using before away)]
      exact ih first
  simpa [twinned,listed] using next

theorem Thinned.sideBySide_cons_le (thinned : Thinned whole gone content text) (c : Char)
    (fewer : sideBySide sign text ≤ twins sign content) :
    sideBySide sign (c :: text) ≤ twins sign (c :: content) := by
  rw [sideBySide_cons]
  split
  · rename_i starts
    obtain ⟨rfl,second⟩ := List.cons_prefix_cons.mp (List.isPrefixOf_iff_prefix.mp starts)
    have next := List.singleton_prefix_iff_head?_eq_some.mp second
    have pair := thinned.twinned_cons listed before next
    rw [twins_cons,if_pos ⟨rfl,pair⟩]
    exact Nat.add_le_add_right fewer 1
  · exact fewer.trans (twins_le_cons c content)

theorem Thinned.sideBySide_le (thinned : Thinned whole gone content text) :
    sideBySide sign text ≤ twins sign content := by
  have tilde := ne_tilde listed
  induction thinned with
  | done => exact Nat.zero_le _
  | last =>
    rw [sideBySide_other tilde]
    exact Nat.zero_le _
  | taken c thinned ih =>
    rw [sideBySide_other tilde]
    exact (thinned.sideBySide_cons_le listed before c ih).trans (twins_le_cons _ _)
  | lost _ _ ih =>
    rw [sideBySide_other tilde]
    exact ih.trans ((twins_le_cons _ _).trans (twins_le_cons _ _))
  | plain _ thinned ih => exact thinned.sideBySide_cons_le listed before _ ih
  | dropped _ _ _ ih => exact ih.trans (twins_le_cons _ _)

theorem Thinned.cut (enough : 2 ≤ twins sign whole) {mark : Bool}
    (thinned : Thinned whole gone content text) (cut : Cut sign mark text after) :
    Thinned whole (sign :: gone) content after := by
  have tilde := ne_tilde listed
  induction thinned generalizing mark after with
  | done =>
    cases cut
    exact .done
  | last =>
    cases cut with
    | kept _ cut =>
      cases cut
      exact .last
    | first => exact absurd rfl tilde
    | second => exact absurd rfl tilde
  | taken c thinned ih =>
    cases cut with
    | kept _ cut =>
      cases cut with
      | kept _ cut => exact .taken c (ih cut)
      | first cut =>
        have first : _ = some sign := cut.begins
        have pair := thinned.twinned_cons listed before first
        exact .lost (by simp [exposed,pair,enough]) (ih cut)
    | first => exact absurd rfl tilde
    | second => exact absurd rfl tilde
  | lost away _ ih =>
    cases cut with
    | kept _ cut => exact .lost away (ih cut)
    | first => exact absurd rfl tilde
    | second => exact absurd rfl tilde
  | plain other _ ih =>
    cases cut with
    | kept _ cut => exact .plain other (ih cut)
    | first cut => exact .dropped other List.mem_cons_self (ih cut)
    | second cut => exact .dropped other List.mem_cons_self (ih cut)
  | dropped other away _ ih => exact .dropped other (List.mem_cons_of_mem _ away) (ih cut)

theorem Thinned.setApart (thinned : Thinned content gone content text) :
    Thinned content (sign :: gone) content (setApart (plainStyle sign) text) := by
  by_cases few : sideBySide sign text < 2
  · rw [setApart_single few]
    exact thinned.mono (List.subset_cons_self sign gone)
  · have enough := thinned.sideBySide_le listed before
    exact thinned.cut listed before (by omega) (cut_setApart sign text)

end Sign

theorem thinned_passes (content : List Char) : Thinned content ['_','/','*'] content
    ((signs.map plainStyle).foldl (fun t s => setApart s t) content) := by
  have stars : Thinned content ['*'] content (setApart (plainStyle '*') content) :=
    (Thinned.refl content content).setApart (by decide) (by decide)
  have slashes : Thinned content ['/','*'] content
      (setApart (plainStyle '/') (setApart (plainStyle '*') content)) :=
    stars.setApart (by decide) (by decide)
  exact slashes.setApart (by decide) (by decide)

theorem escapedBut_taken (lost : List Char → Bool) (c : Char) (content : List Char) :
    escapedBut lost ('~' :: c :: content) =
      if lost (c :: content) then escapedBut lost content else c :: escapedBut lost content := by
  rw [escapedBut,takers,List.filter_cons]
  cases lost (c :: content) <;> rfl

theorem escapedBut_other (lost : List Char → Bool) {c : Char} (other : c ≠ '~')
    (content : List Char) : escapedBut lost (c :: content) = escapedBut lost content := by
  rw [escapedBut,takers_other other,escapedBut]

-- The tilde of a lost sign takes what comes next, be it another tilde; so the text is looked at
-- with a tilde before it and without one.
theorem Thinned.spared_sublist (thinned : Thinned whole gone content text)
    (oneLine : '\n' ∉ content) :
    (escapedBut (exposed whole) content).Sublist (unescape text) ∧
    (escapedBut (exposed whole) content).Sublist (unescape ('~' :: text)) := by
  have alone {c : Char} (solid : c ≠ '\n') (text : List Char) :
      unescape ('~' :: c :: text) = c :: unescape text := by
    rw [unescape,if_neg solid]
  induction thinned with
  | done => exact ⟨List.nil_sublist _,List.nil_sublist _⟩
  | last => exact ⟨List.nil_sublist _,List.nil_sublist _⟩
  | @taken content text c thinned ih =>
    simp only [List.mem_cons,not_or] at oneLine
    obtain ⟨_,solid,oneLine⟩ := oneLine
    obtain ⟨plain,tilded⟩ := ih oneLine
    have grown : (escapedBut (exposed whole) ('~' :: c :: content)).Sublist
        (c :: escapedBut (exposed whole) content) := by
      rw [escapedBut_taken]
      split
      · exact List.sublist_cons_self _ _
      · exact List.Sublist.refl _
    refine ⟨?_,grown.trans ?_⟩
    · rw [alone (Ne.symm solid)]
      exact grown.trans (plain.cons_cons c)
    · rw [alone (by decide)]
      by_cases tilde : c = '~'
      · subst tilde
        exact tilded.cons_cons '~'
      · rw [unescape_other tilde]
        exact (plain.cons_cons c).cons '~'
  | lost away thinned ih =>
    simp only [List.mem_cons,not_or] at oneLine
    obtain ⟨plain,tilded⟩ := ih oneLine.2.2
    rw [escapedBut_taken,if_pos away]
    refine ⟨tilded,?_⟩
    rw [alone (by decide)]
    exact plain.cons '~'
  | plain other thinned ih =>
    rw [List.mem_cons,not_or] at oneLine
    obtain ⟨plain,_⟩ := ih oneLine.2
    rw [escapedBut_other _ other,alone (Ne.symm oneLine.1),unescape_other other]
    exact ⟨plain.cons _,plain.cons _⟩
  | dropped other _ thinned ih =>
    rw [List.mem_cons,not_or] at oneLine
    rw [escapedBut_other _ other]
    exact ih oneLine.2

end Thinned

-- What tildes take in a cell of one line is in its plain text, in the same order, but for exposed
-- signs. All of it is there when no tilde has taken an exposed sign.
theorem escaped_literal (c : Cell) (oneLine : '\n' ∉ c.content.toList)
    (trimmed : Text.Chars.trim c.content.toList = c.content.toList) :
    (spared c.content.toList).Sublist c.plainText.toList ∧
      ((∀ q ∈ takers c.content.toList, exposed c.content.toList q = false) →
        (escaped c.content.toList).Sublist c.plainText.toList) := by
  have kept := ((thinned_passes c.content.toList).spared_sublist oneLine).1
  have text : c.plainText.toList = unescape
      ((signs.map plainStyle).foldl (fun t s => setApart s t) c.content.toList) := by
    rw [Cell.plainText,plainChars,trimmed,String.toList_ofList]
    rfl
  rw [←text] at kept
  refine ⟨kept,?_⟩
  intro hidden
  have all : escaped c.content.toList = spared c.content.toList := by
    rw [escaped,spared,escapedBut,List.filter_eq_self.mpr]
    intro q member
    simp [hidden q member]
  rw [all]
  exact kept

theorem escaped_literal_mixed :
    let c : Cell := ⟨false,"~*~*a~*~* **b~~** http:~//x ~_"⟩
    '\n' ∉ c.content.toList ∧ Text.Chars.trim c.content.toList = c.content.toList ∧
      (∀ q ∈ takers c.content.toList, exposed c.content.toList q = false) ∧
      escaped c.content.toList = "****~/_".toList ∧
      (escaped c.content.toList).Sublist c.plainText.toList := by
  intro c
  have oneLine : '\n' ∉ c.content.toList := by decide +kernel
  have trimmed : Text.Chars.trim c.content.toList = c.content.toList := by decide +kernel
  have hidden : ∀ q ∈ takers c.content.toList, exposed c.content.toList q = false := by
    decide +kernel
  exact ⟨oneLine,trimmed,hidden,by decide +kernel,(escaped_literal c oneLine trimmed).2 hidden⟩

-- The star that the tilde takes and the next one are taken for the beginning of strong text.
theorem escaped_star_lost :
    let c : Cell := ⟨false,"~**a**"⟩
    '\n' ∉ c.content.toList ∧ Text.Chars.trim c.content.toList = c.content.toList ∧
      escaped c.content.toList = ['*'] ∧ c.plainText = "a" ∧
      ¬ (escaped c.content.toList).Sublist c.plainText.toList := by
  intro c
  have taken : escaped c.content.toList = ['*'] := by decide +kernel
  have plain : Cell.plainText ⟨false,"~**a**"⟩ = "a" := by cbv
  refine ⟨by decide +kernel,by decide +kernel,taken,plain,?_⟩
  rw [taken,plain]
  decide

end TableView.Inline
