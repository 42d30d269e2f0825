import Mathlib.Logic.Function.Basic
import Mathlib.Tactic

/-!
Power cuts: a device is a function from places to what is stored there, a call
stores a list of things one after another, and the power can fail before, between
and in the middle of the writes. A write that is cut leaves something torn.
-/
namespace UBoot.PowerCuts
open List Function
universe u v

section
variable {Place : Type u} {Stored : Type v} [DecidableEq Place]

def stored (device : Place → Stored) (writes : List (Place × Stored)) : Place → Stored :=
  writes.foldl (fun device w => Function.update device w.1 w.2) device

/-- The devices that a cut of the writes can leave, the whole of them included. -/
inductive Cut (Torn : Stored → Prop) : (Place → Stored) → List (Place × Stored) → (Place → Stored) → Prop
  | before (device : Place → Stored) (writes : List (Place × Stored)) : Cut Torn device writes device
  | torn {device : Place → Stored} {w : Place × Stored} {writes : List (Place × Stored)} {t : Stored} :
      Torn t → Cut Torn device (w::writes) (Function.update device w.1 t)
  | behind {device after : Place → Stored} {w : Place × Stored} {writes : List (Place × Stored)} :
      Cut Torn (Function.update device w.1 w.2) writes after → Cut Torn device (w::writes) after

/-- The device where the power fails after `done` of the writes, in the middle of the next
    one if something torn is given. -/
def cut_at (device : Place → Stored) (writes : List (Place × Stored)) (done : ℕ) (torn : Option Stored) : Place → Stored :=
  match writes[done]?, torn with
  | some w, some t => Function.update (stored device (writes.take done)) w.1 t
  | _, _ => stored device (writes.take done)

variable {Torn : Stored → Prop} {device after : Place → Stored}

theorem cut_nil (cut : Cut Torn device [] after) : after = device := by
  cases cut
  rfl

theorem cut_cons {w : Place × Stored} {writes : List (Place × Stored)} (cut : Cut Torn device (w::writes) after) :
    after = device ∨ (∃ t, Torn t ∧ after = Function.update device w.1 t) ∨
      Cut Torn (Function.update device w.1 w.2) writes after := by
  cases cut with
  | before => exact .inl rfl
  | torn torn => exact .inr (.inl ⟨_,torn,rfl⟩)
  | behind rest => exact .inr (.inr rest)

theorem cut_cut_at (device : Place → Stored) (writes : List (Place × Stored)) (done : ℕ) {torn : Option Stored}
    (tears : ∀ t ∈ torn, Torn t) : Cut Torn device writes (cut_at device writes done torn) := by
  induction writes generalizing device done with
  | nil =>
    have same : cut_at device [] done torn = device := by simp [cut_at,stored]
    rw [same]
    exact .before device []
  | cons w writes ih =>
    cases done with
    | zero =>
      cases torn with
      | none => exact .before device (w::writes)
      | some t => exact .torn (tears t rfl)
    | succ done => exact .behind (ih (Function.update device w.1 w.2) done)

/-- What no write names stays. -/
theorem cut_elsewhere {writes : List (Place × Stored)} {p : Place} (elsewhere : ∀ w ∈ writes, w.1 ≠ p)
    (cut : Cut Torn device writes after) : after p = device p := by
  induction cut with
  | before => rfl
  | torn => exact update_of_ne (elsewhere _ mem_cons_self).symm _ _
  | behind rest ih =>
    rw [ih (fun w member => elsewhere w (mem_cons_of_mem _ member))]
    exact update_of_ne (elsewhere _ mem_cons_self).symm _ _
end

end UBoot.PowerCuts
