import Npoller.StepSystem

/-!
Data that a mutex protects. A thread is outside the mutex, where it may look at the
data, or inside, where it may change them. A condition that holds whenever the mutex
is free, and one for each place inside, are invariants of all interleavings once they
are passed on by entering, working inside and leaving.
-/

namespace Npoller.Monitor

open StepSystem

variable {τ δ ο ι α : Type*}

/-- What one thread does: `enter` and `exit` say where it takes and releases the mutex. -/
structure Program (δ ο ι α : Type*) where
  look : ο → α → δ → ο
  enter : ο → Option ι
  work : ι → α → δ → ι × δ
  exit : ι → Option ο

inductive Place (ο ι : Type*) where
  | outside (o : ο)
  | inside (i : ι)
  deriving DecidableEq

structure State (τ δ ο ι : Type*) where
  data : δ
  holder : Option τ
  place : τ → Place ο ι

variable [DecidableEq τ] {program : Program δ ο ι α}

def State.move (s : State τ δ ο ι) (t : τ) (place : Place ο ι) : State τ δ ο ι :=
  { s with place := Function.update s.place t place }

/-- One step of a thread; `none` while it waits for the mutex. -/
def run (program : Program δ ο ι α) (s : State τ δ ο ι) (t : τ) (answer : α) :
    Option (State τ δ ο ι) :=
  match s.place t with
  | .outside o =>
      match program.enter o with
      | some i =>
          if s.holder.isNone then some { s.move t (.inside i) with holder := some t } else none
      | none => some (s.move t (.outside (program.look o answer s.data)))
  | .inside i =>
      match program.exit i with
      | some o => some { s.move t (.outside o) with holder := none }
      | none =>
          let (next, data) := program.work i answer s.data
          some { s.move t (.inside next) with data }

/-- All threads start outside, over data that `starts` admits. -/
def monitorSystem (τ : Type*) [DecidableEq τ] (program : Program δ ο ι α) (starts : δ → Prop)
    (idle : ο) : System (State τ δ ο ι) (τ × α) where
  init s := starts s.data ∧ s.holder = none ∧ ∀ t, s.place t = .outside idle
  step before label after := run program before label.1 label.2 = some after

inductive StepOf (program : Program δ ο ι α) (s : State τ δ ο ι) (t : τ) :
    State τ δ ο ι → Prop where
  | looked {o o' : ο} (at_ : s.place t = .outside o) : StepOf program s t (s.move t (.outside o'))
  | entered {o : ο} {i : ι} (at_ : s.place t = .outside o) (enters : program.enter o = some i)
      (free : s.holder = none) :
      StepOf program s t { s.move t (.inside i) with holder := some t }
  | worked {i next : ι} {answer : α} {data : δ} (at_ : s.place t = .inside i)
      (works : program.work i answer s.data = (next, data)) :
      StepOf program s t { s.move t (.inside next) with data := data }
  | left {i : ι} {o : ο} (at_ : s.place t = .inside i) (exits : program.exit i = some o) :
      StepOf program s t { s.move t (.outside o) with holder := none }

theorem run_steps {s after : State τ δ ο ι} {t : τ} {answer : α}
    (moves : run program s t answer = some after) : StepOf program s t after := by
  unfold run at moves
  split at moves
  · rename_i o at_
    split at moves
    · rename_i i enters
      split at moves
      · rename_i free
        cases moves
        exact .entered at_ enters (Option.isNone_iff_eq_none.mp free)
      · cases moves
    · cases moves
      exact .looked at_
  · rename_i i at_
    split at moves
    · rename_i o exits
      cases moves
      exact .left at_ exits
    · cases moves
      exact .worked at_ rfl

structure Rules (program : Program δ ο ι α) (starts settled : δ → Prop) (shape : ι → δ → Prop) :
    Prop where
  starts : ∀ data, starts data → settled data
  enters : ∀ o i data, program.enter o = some i → settled data → shape i data
  works : ∀ i answer data, shape i data →
    shape (program.work i answer data).1 (program.work i answer data).2
  exits : ∀ i o data, program.exit i = some o → shape i data → settled data

/-- The holder is the one thread inside, and the data are as its place says; while
nobody is inside they are settled. -/
structure Guarded (settled : δ → Prop) (shape : ι → δ → Prop) (s : State τ δ ο ι) : Prop where
  held : ∀ t, s.holder = some t ↔ ∃ i, s.place t = .inside i
  free : s.holder = none → settled s.data
  busy : ∀ t i, s.place t = .inside i → shape i s.data

variable {starts settled : δ → Prop} {shape : ι → δ → Prop} {s after : State τ δ ο ι} {t u : τ}

@[simp] theorem move_place_self (place : Place ο ι) : (s.move t place).place t = place :=
  Function.update_self _ _ _

theorem move_place_other (place : Place ο ι) (apart : u ≠ t) :
    (s.move t place).place u = s.place u := Function.update_of_ne apart _ _

omit [DecidableEq τ] in
theorem other_outside (guarded : Guarded settled shape s) {i j : ι} (here : s.place t = .inside i)
    (apart : u ≠ t) : s.place u ≠ .inside j := by
  intro there
  have mine := (guarded.held t).mpr ⟨i, here⟩
  have other := (guarded.held u).mpr ⟨j, there⟩
  rw [mine] at other
  cases other
  exact apart rfl

omit [DecidableEq τ] in
theorem none_inside (guarded : Guarded settled shape s) (free : s.holder = none) {i : ι} :
    s.place u ≠ .inside i := by
  intro there
  have holds := (guarded.held u).mpr ⟨i, there⟩
  rw [free] at holds
  cases holds

theorem guards_inside {i : ι} {data : δ} (alone : ∀ u j, u ≠ t → s.place u ≠ .inside j)
    (kept : shape i data) :
    Guarded settled shape ⟨data, some t, (s.move t (.inside i)).place⟩ := by
  refine ⟨?_, nofun, ?_⟩
  · intro u
    by_cases same : u = t
    · subst same
      exact iff_of_true rfl ⟨i, move_place_self _⟩
    · apply iff_of_false
      · rintro ⟨⟩
        exact same rfl
      · rintro ⟨j, inside⟩
        exact alone u j same ((move_place_other _ same).symm.trans inside)
  · intro u j inside
    by_cases same : u = t
    · subst same
      have here : Place.inside i = .inside j := (move_place_self _).symm.trans inside
      cases here
      exact kept
    · exact absurd ((move_place_other _ same).symm.trans inside) (alone u j same)

theorem guards_outside {o : ο} {data : δ} (alone : ∀ u j, u ≠ t → s.place u ≠ .inside j)
    (kept : settled data) :
    Guarded settled shape ⟨data, none, (s.move t (.outside o)).place⟩ := by
  have away : ∀ u j, (s.move t (.outside o)).place u ≠ .inside j := by
    intro u j inside
    by_cases same : u = t
    · subst same
      have here : Place.outside o = .inside j := (move_place_self _).symm.trans inside
      cases here
    · exact alone u j same ((move_place_other _ same).symm.trans inside)
  refine ⟨?_, fun _ => kept, fun u j inside => absurd inside (away u j)⟩
  intro u
  apply iff_of_false
  · nofun
  · rintro ⟨j, inside⟩
    exact away u j inside

theorem looked_guards {o o' : ο} (guarded : Guarded settled shape s)
    (at_ : s.place t = .outside o) : Guarded settled shape (s.move t (.outside o')) := by
  have same : ∀ u i, (s.move t (.outside o')).place u = .inside i ↔ s.place u = .inside i := by
    intro u i
    by_cases mine : u = t
    · subst mine
      rw [move_place_self, at_]
      exact iff_of_false nofun nofun
    · rw [move_place_other _ mine]
  refine ⟨?_, guarded.free, fun u i inside => guarded.busy u i ((same u i).mp inside)⟩
  intro u
  rw [exists_congr (same u)]
  exact guarded.held u

theorem step_guards (rules : Rules program starts settled shape)
    (guarded : Guarded settled shape s) (step : StepOf program s t after) :
    Guarded settled shape after := by
  cases step with
  | looked at_ => exact looked_guards guarded at_
  | entered at_ enters free =>
      apply guards_inside (fun u j _ => none_inside guarded free)
      exact rules.enters _ _ _ enters (guarded.free free)
  | @worked i next answer data at_ works =>
      have kept := rules.works i answer s.data (guarded.busy t i at_)
      rw [works] at kept
      have mine : s.holder = some t := (guarded.held t).mpr ⟨i, at_⟩
      have guards : Guarded settled shape ⟨data, some t, (s.move t (.inside next)).place⟩ :=
        guards_inside (fun u j apart => other_outside guarded at_ apart) kept
      rw [← mine] at guards
      exact guards
  | left at_ exits =>
      apply guards_outside (fun u j apart => other_outside guarded at_ apart)
      exact rules.exits _ _ _ exits (guarded.busy t _ at_)

theorem monitor_guards {idle : ο} (rules : Rules program starts settled shape)
    (reached : Reachable (monitorSystem τ program starts idle) s) : Guarded settled shape s := by
  apply invariant _ _ reached
  · rintro state ⟨begins, free, places⟩
    refine ⟨?_, fun _ => rules.starts _ begins, ?_⟩
    · intro t
      rw [free, places t]
      simp
    · intro t i inside
      rw [places t] at inside
      cases inside
  · intro before label after guarded _ moves
    exact step_guards rules guarded (run_steps moves)

theorem inside_runs {i : ι} (inside : s.place t = .inside i) (answer : α) :
    (run program s t answer).isSome := by
  unfold run
  rw [inside]
  dsimp only
  cases program.exit i <;> rfl

theorem free_runs (free : s.holder = none) (answer : α) : (run program s t answer).isSome := by
  cases at_ : s.place t with
  | inside i => exact inside_runs at_ answer
  | outside o =>
      unfold run
      rw [at_]
      dsimp only
      cases program.enter o with
      | none => rfl
      | some i =>
          dsimp only
          rw [free]
          rfl

/-- The mutex never stops all threads: a thread can go on, or another one is inside
and can. -/
theorem monitor_progresses {idle : ο} (rules : Rules program starts settled shape)
    (reached : Reachable (monitorSystem τ program starts idle) s) (t : τ) :
    ∃ u, (u = t ∨ ∃ i, s.place u = .inside i) ∧ ∀ answer, (run program s u answer).isSome := by
  have guarded := monitor_guards rules reached
  cases free : s.holder with
  | some u =>
      obtain ⟨i, inside⟩ := (guarded.held u).mp free
      exact ⟨u, .inr ⟨i, inside⟩, inside_runs inside⟩
  | none => exact ⟨t, .inl rfl, free_runs free⟩

end Npoller.Monitor
