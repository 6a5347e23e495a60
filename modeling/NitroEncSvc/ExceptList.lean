import Mathlib.Control.Monad.Basic
import Mathlib.Data.List.Forall2

namespace NitroEncSvc.ExceptList

/-!
# `Except` computations over lists

Rust's `?` operator is `Except`'s bind: the first error returns at once.  The
service runs such computations in two loop shapes, a `for` over the elements
of an array (`List.mapM`) and a `for` over a set of paths (`List.foldlM`).  The
lemmas here say when those loops succeed, and with what, in terms of the pure
loop they refine.
-/

variable {ε α β : Type}

@[simp] theorem ok_bind (value : α) (next : α → Except ε β) :
    (Except.ok value >>= next) = next value :=
  rfl

@[simp] theorem error_bind (error : ε) (next : α → Except ε β) :
    (Except.error error >>= next) = Except.error error :=
  rfl

/-- A bind succeeds exactly when its first computation does and the rest does from there. -/
theorem bind_eq_ok
    {first : Except ε α}
    {next : α → Except ε β}
    {result : β} :
    first >>= next = .ok result ↔ ∃ value, first = .ok value ∧ next value = .ok result := by
  cases first <;> simp

@[simp] theorem isOk_ok (value : α) : (Except.ok value : Except ε α).isOk = true :=
  rfl

@[simp] theorem isOk_error (error : ε) : (Except.error error : Except ε α).isOk = false :=
  rfl

@[simp] theorem isOk_map (f : α → β) (result : Except ε α) :
    (f <$> result).isOk = result.isOk := by
  cases result <;> rfl

/-- A computation that is not `ok` is an error. -/
theorem eq_error_of_isOk_eq_false
    {result : Except ε α}
    (failed : result.isOk = false) :
    ∃ error, result = .error error := by
  cases result with
  | error error => exact ⟨error, rfl⟩
  | ok value => simp at failed

/-- A computation that is `ok` has a value. -/
theorem eq_ok_of_isOk
    {result : Except ε α}
    (succeeded : result.isOk = true) :
    ∃ value, result = .ok value := by
  cases result with
  | error error => simp at succeeded
  | ok value => exact ⟨value, rfl⟩

/-- `mapM` succeeds with the pure map when every element succeeds with it. -/
theorem mapM_eq_ok_map
    {f : α → Except ε β}
    {g : α → β}
    {items : List α}
    (agree : ∀ item ∈ items, f item = .ok (g item)) :
    items.mapM f = .ok (items.map g) := by
  induction items with
  | nil =>
      rfl
  | cons item rest inductionHypothesis =>
      have headAgrees := agree item List.mem_cons_self
      have restAgree : ∀ other ∈ rest, f other = .ok (g other) :=
        fun other member => agree other (List.mem_cons_of_mem _ member)
      rw [List.mapM_cons, headAgrees, ok_bind, inductionHypothesis restAgree]
      rfl

/-- `mapM` fails as soon as one element fails. -/
theorem mapM_isOk_eq_false
    {f : α → Except ε β}
    {items : List α}
    {item : α}
    (member : item ∈ items)
    (failure : (f item).isOk = false) :
    (items.mapM f).isOk = false := by
  induction items with
  | nil =>
      simp at member
  | cons head rest inductionHypothesis =>
      rw [List.mapM_cons]
      cases headResult : f head with
      | error e =>
          rfl
      | ok headValue =>
          rcases List.mem_cons.mp member with isHead | inRest
          · subst isHead
            rw [headResult] at failure
            cases failure
          · have restFails := inductionHypothesis inRest
            obtain ⟨error, restError⟩ := eq_error_of_isOk_eq_false restFails
            rw [ok_bind, restError, error_bind]
            rfl

end NitroEncSvc.ExceptList
