import Mathlib.Data.List.Forall2

namespace TableView

variable {α β ε δ : Type}

theorem ok_of_toOption {r : Except ε α} {a : α} (given : r.toOption = some a) : r = .ok a := by
  cases r with
  | error e => cases given
  | ok b => exact congrArg Except.ok (Option.some.inj given)

theorem ok_of_bind {r : Except ε α} {f : α → Except ε β} {b : β} (given : (r >>= f) = .ok b) :
    ∃ a, r = .ok a ∧ f a = .ok b := by
  cases r with
  | error e => cases given
  | ok a => exact ⟨a,rfl,given⟩

theorem ok_of_map {r : Except ε α} {f : α → β} {b : β} (given : r.map f = .ok b) :
    ∃ a, r = .ok a ∧ f a = b := by
  cases r with
  | error e => cases given
  | ok a => exact ⟨a,rfl,Except.ok.inj given⟩

theorem ok_of_mapError {r : Except ε α} {f : ε → δ} {a : α} (given : r.mapError f = .ok a) :
    r = .ok a := by
  cases r with
  | error e => cases given
  | ok b => exact congrArg Except.ok (Except.ok.inj given)

theorem forall₂_of_mapM {f : α → Except ε β} {as : List α} {bs : List β}
    (given : as.mapM f = .ok bs) : List.Forall₂ (fun a b => f a = .ok b) as bs := by
  induction as generalizing bs with
  | nil =>
    cases given
    exact .nil
  | cons a as ih =>
    rw [List.mapM_cons] at given
    obtain ⟨b,one,given⟩ := ok_of_bind given
    obtain ⟨others,more,given⟩ := ok_of_bind given
    cases given
    exact .cons one (ih more)

section
variable {P : ε → Prop} {r : Except ε α}

def FailsBy (P : ε → Prop) (r : Except ε α) : Prop := ∀ e, r = .error e → P e

@[simp] theorem failsBy_ok (a : α) : FailsBy P (.ok a) := nofun

@[simp] theorem failsBy_error {e : ε} : FailsBy P (.error e : Except ε α) ↔ P e := by
  simp [FailsBy]

@[simp] theorem failsBy_map (f : α → β) : FailsBy P (r.map f) ↔ FailsBy P r := by
  cases r with
  | error e => exact failsBy_error.trans failsBy_error.symm
  | ok a => exact iff_of_true (failsBy_ok _) (failsBy_ok _)

theorem failsBy_mapError {Q : δ → Prop} {f : ε → δ} (fails : FailsBy P r)
    (told : ∀ e, P e → Q (f e)) : FailsBy Q (r.mapError f) := by
  cases r with
  | error e => exact failsBy_error.mpr (told e (fails e rfl))
  | ok a => exact failsBy_ok a

theorem failsBy_told {Q : δ → Prop} {f : ε → δ} (told : ∀ e, Q (f e)) :
    FailsBy Q (r.mapError f) :=
  failsBy_mapError (fun _ _ => True.intro : FailsBy (fun _ => True) r) fun e _ => told e

theorem FailsBy.imp {Q : ε → Prop} (fails : FailsBy P r) (weaker : ∀ e, P e → Q e) :
    FailsBy Q r :=
  fun e failed => weaker e (fails e failed)

theorem FailsBy.bind {f : α → Except ε β} (first : FailsBy P r)
    (next : ∀ a, r = .ok a → FailsBy P (f a)) : FailsBy P (r >>= f) := by
  cases r with
  | error e => exact failsBy_error.mpr (first e rfl)
  | ok a => exact next a rfl

theorem FailsBy.mapM {f : α → Except ε β} {as : List α} (each : ∀ a ∈ as, FailsBy P (f a)) :
    FailsBy P (as.mapM f) := by
  induction as with
  | nil => exact failsBy_ok []
  | cons a as ih =>
    obtain ⟨here,each⟩ := List.forall_mem_cons.mp each
    rw [List.mapM_cons]
    exact here.bind fun b _ => (ih each).bind fun bs _ => failsBy_ok (b :: bs)

end

end TableView
