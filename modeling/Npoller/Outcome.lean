import Mathlib.Logic.Basic

/-!
Postconditions for computations that return a value or throw. `Ends allowed r
post` is partial only in the faults it names: a run may stop with an allowed
fault, with no other one, and every value it returns satisfies `post`. The
rules follow the shape of a program: return, sequence, branch and left fold.
-/

namespace Npoller.Outcome

universe u v w
variable {ε : Type u} {α β : Type v}

def Ends (allowed : ε → Prop) (result : Except ε α) (post : α → Prop) : Prop :=
  match result with
  | .ok value => post value
  | .error fault => allowed fault

@[simp] theorem ends_ok (allowed : ε → Prop) (value : α) (post : α → Prop) :
    Ends allowed (.ok value) post ↔ post value := Iff.rfl

@[simp] theorem ends_pure (allowed : ε → Prop) (value : α) (post : α → Prop) :
    Ends allowed (pure value) post ↔ post value := Iff.rfl

@[simp] theorem ends_error (allowed : ε → Prop) (fault : ε) (post : α → Prop) :
    Ends allowed (.error fault) post ↔ allowed fault := Iff.rfl

@[simp] theorem ok_bind (value : α) (next : α → Except ε β) :
    (Except.ok value >>= next) = next value := rfl

theorem ends_bind {allowed : ε → Prop} {result : Except ε α} {middle : α → Prop}
    {next : α → Except ε β} {post : β → Prop}
    (first : Ends allowed result middle)
    (rest : ∀ value, middle value → Ends allowed (next value) post) :
    Ends allowed (result >>= next) post := by
  cases result with
  | ok value => exact rest value first
  | error fault => exact first

theorem ends_bind_ok {allowed : ε → Prop} {result : Except ε α} {value : α}
    {next : α → Except ε β} {post : β → Prop} (returned : result = .ok value)
    (rest : Ends allowed (next value) post) : Ends allowed (result >>= next) post := by
  subst returned
  exact rest

theorem ends_map {allowed : ε → Prop} {result : Except ε α} {part : α → β} {post : β → Prop}
    (ends : Ends allowed result (fun value => post (part value))) :
    Ends allowed (part <$> result) post := by
  cases result with
  | ok value => exact ends
  | error fault => exact ends

theorem ends_mono {allowed wider : ε → Prop} {result : Except ε α} {post weaker : α → Prop}
    (ends : Ends allowed result post) (faults : ∀ fault, allowed fault → wider fault)
    (values : ∀ value, post value → weaker value) : Ends wider result weaker := by
  cases result with
  | ok value => exact values value ends
  | error fault => exact faults fault ends

theorem ends_weaken {allowed : ε → Prop} {result : Except ε α} {post weaker : α → Prop}
    (ends : Ends allowed result post) (values : ∀ value, post value → weaker value) :
    Ends allowed result weaker :=
  ends_mono ends (fun _ fault => fault) values

theorem ends_total {allowed : ε → Prop} {result : Except ε α} {post : α → Prop}
    (ends : Ends (fun _ => False) result post) : Ends allowed result post :=
  ends_mono ends (fun _ never => never.elim) (fun _ holds => holds)

theorem ends_returned {allowed : ε → Prop} {result : Except ε α} {post : α → Prop}
    (ends : Ends allowed result post) :
    Ends allowed result (fun value => post value ∧ result = .ok value) := by
  cases result with
  | ok value => exact ⟨ends, rfl⟩
  | error fault => exact ends

theorem ends_and {allowed wider : ε → Prop} {result : Except ε α} {left right : α → Prop}
    (first : Ends allowed result left) (second : Ends wider result right) :
    Ends allowed result (fun value => left value ∧ right value) := by
  cases result with
  | ok value => exact ⟨first, second⟩
  | error fault => exact first

theorem ends_value {allowed : ε → Prop} {result : Except ε α} {post : α → Prop} {value : α}
    (ends : Ends allowed result post) (returned : result = .ok value) : post value := by
  subst returned
  exact ends

theorem ends_fault {allowed : ε → Prop} {result : Except ε α} {post : α → Prop} {fault : ε}
    (ends : Ends allowed result post) (thrown : result = .error fault) : allowed fault := by
  subst thrown
  exact ends

/-- A computation that returns has a property exactly where each value it may return
has it. -/
theorem ends_iff {allowed : ε → Prop} {result : Except ε α} {known post : α → Prop} {cond : Prop}
    (ends : Ends (fun _ => False) result known) (meets : ∀ value, known value → (post value ↔ cond)) :
    Ends allowed result post ↔ cond := by
  cases result with
  | ok value => exact meets value ends
  | error fault => exact ends.elim

theorem ends_foldlM {σ : Type v} {ι : Type w} {allowed : ε → Prop} {step : σ → ι → Except ε σ}
    {inv : List ι → σ → Prop}
    (keeps : ∀ input rest state, inv (input :: rest) state →
      Ends allowed (step state input) (inv rest))
    {inputs : List ι} {state : σ} (start : inv inputs state) :
    Ends allowed (inputs.foldlM step state) (inv []) := by
  induction inputs generalizing state with
  | nil => exact start
  | cons input rest ih =>
      rw [List.foldlM_cons]
      exact ends_bind (keeps input rest state start) (fun _ kept => ih kept)

end Npoller.Outcome
