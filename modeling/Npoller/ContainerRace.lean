import Mathlib.Data.List.Induction
import Mathlib.Logic.Function.Basic
import Npoller.MemContainer
import Npoller.StepSystem

/-!
`mem_container` under any number of threads. The shared lock admits all calls at
once, so `container.empty`, `container.pop`, `container.push` and the accesses to
`size` are separate steps over a linearizable queue. Each block has a history of
events, and `follow` says where a block with one owner at a time must be after it.
-/

namespace Npoller.ContainerRace

open StepSystem SizeT MemContainer

variable {θ : Type*} [DecidableEq θ]

/-- `none` is the value of `char *ret` before anything is stored there. -/
inductive Pc where
  | idle
  | empty
  | pop
  | subtract (ret : Option BlockId)
  | allocate
  | load (ptr : BlockId)
  | push (ptr : BlockId)
  | add
  | delete (ptr : BlockId)
  deriving DecidableEq, Repr

def Pc.carried : Pc → Option BlockId
  | .subtract ret => ret
  | .load ptr | .push ptr | .delete ptr => some ptr
  | _ => none

/-- What happens to blocks: `fresh` and `got` are returned by `get`, `put` is passed
to `push`. `wild` is a `get` that returns what nothing was stored in. -/
inductive Event where
  | fresh (block : BlockId)
  | put (block : BlockId)
  | got (block : BlockId)
  | deleted (block : BlockId)
  | wild
  deriving DecidableEq, Repr

inductive Place where
  | unborn
  | out
  | inside
  | gone
  deriving DecidableEq, Repr

def Event.passage : Event → Option (BlockId × Place × Place)
  | .fresh block => some (block, .unborn, .out)
  | .put block => some (block, .out, .inside)
  | .got block => some (block, .inside, .out)
  | .deleted block => some (block, .inside, .gone)
  | .wild => none

def Event.block (event : Event) : Option BlockId := event.passage.map Prod.fst

def turn (block : BlockId) (place : Place) (event : Event) : Option Place :=
  match event.passage with
  | none => some place
  | some (other, before, after) =>
      if other = block then if place = before then some after else none else some place

def follow (block : BlockId) (history : List Event) : Option Place :=
  history.foldlM (turn block) .unborn

/-- `size` is a `std::atomic<int>`; here it does not wrap. -/
structure Container (θ : Type*) where
  container : List BlockId
  size : Int
  maxSize : Nat
  next : Nat
  pc : θ → Pc
  history : List Event

def Container.construct (size : Nat) : Container θ :=
  ⟨[], 0, capacityFor size, 0, fun _ => .idle, []⟩

def Container.goto (s : Container θ) (t : θ) (pc : Pc) : Container θ :=
  { s with pc := Function.update s.pc t pc }

/-- `allocationFails`: `new` throws and the call is over. -/
inductive Move (θ : Type*) where
  | get (t : θ)
  | push (t : θ) (ptr : BlockId)
  | step (t : θ)
  | allocationFails (t : θ)

def Container.step (s : Container θ) (t : θ) : Option (Container θ) :=
  match s.pc t with
  | .idle => none
  | .empty => some (s.goto t (if s.container = [] then .allocate else .pop))
  | .pop =>
      -- A pop of the empty queue stores nothing, and nobody looks at its result.
      match s.container with
      | [] => some (s.goto t (.subtract none))
      | block :: rest => some { s.goto t (.subtract (some block)) with container := rest }
  | .subtract (some block) =>
      some { s.goto t .idle with size := s.size - 1, history := s.history ++ [.got block] }
  | .subtract none =>
      some { s.goto t .idle with size := s.size - 1, history := s.history ++ [.wild] }
  | .allocate =>
      some { s.goto t .idle with next := s.next + 1, history := s.history ++ [.fresh s.next] }
  | .load ptr =>
      some (s.goto t (if (s.size % (wordSize : Int)).toNat ≤ s.maxSize then .push ptr
        else .delete ptr))
  | .push ptr => some { s.goto t .add with container := s.container ++ [ptr] }
  | .add => some { s.goto t .idle with size := s.size + 1 }
  | .delete ptr => some { s.goto t .idle with history := s.history ++ [.deleted ptr] }

/-- `push` is called with a block that is out of the container. -/
def run (s : Container θ) : Move θ → Option (Container θ)
  | .get t => if s.pc t = .idle then some (s.goto t .empty) else none
  | .push t ptr =>
      if s.pc t = .idle ∧ follow ptr s.history = some .out then
        some { s.goto t (.load ptr) with history := s.history ++ [.put ptr] }
      else none
  | .step t => s.step t
  | .allocationFails t => if s.pc t = .allocate then some (s.goto t .idle) else none

def containerSystem (θ : Type*) [DecidableEq θ] : System (Container θ) (Move θ) where
  init s := ∃ size, s = .construct size
  step before move after := run before move = some after

/-- No other `get` takes the last block between the test and the pop of a `get`. -/
def PopsFind (s : Container θ) : Move θ → Prop
  | .step t => s.pc t = .pop → s.container ≠ []
  | _ => True

instance (s : Container θ) (move : Move θ) : Decidable (PopsFind s move) :=
  match move with
  | .step t => inferInstanceAs (Decidable (s.pc t = .pop → s.container ≠ []))
  | .get _ | .push _ _ | .allocationFails _ => inferInstanceAs (Decidable True)

/-- The block is in the queue or on its way to or from it. -/
def Container.Inside (s : Container θ) (block : BlockId) : Prop :=
  block ∈ s.container ∨ ∃ t, (s.pc t).carried = some block

/-- Every block follows its history, and has one place in the container. -/
structure Owned (s : Container θ) : Prop where
  placed : ∀ block, ∃ place, follow block s.history = some place ∧
    (place = .unborn ↔ s.next ≤ block) ∧ (place = .inside ↔ s.Inside block)
  pooled : s.container.Nodup
  apart : ∀ t block, (s.pc t).carried = some block → block ∉ s.container
  single : ∀ t u block, (s.pc t).carried = some block → (s.pc u).carried = some block → t = u
  stored : ∀ t, s.pc t ≠ .subtract none

variable {s after : Container θ} {t u : θ} {block : BlockId}

section History

theorem follow_append {history : List Event} {place : Place} (event : Event)
    (followed : follow block history = some place) :
    follow block (history ++ [event]) = turn block place event := by
  rw [follow, List.foldlM_append]
  change (follow block history >>= _) = _
  rw [followed]
  change (turn block place event >>= pure) = _
  rw [bind_pure]

theorem turn_self {event : Event} {before place : Place}
    (passage : event.passage = some (block, before, place)) : turn block before event = some place := by
  simp [turn, passage]

theorem turn_other {event : Event} {other : BlockId} {before place here : Place}
    (passage : event.passage = some (other, before, place)) (apart : other ≠ block) :
    turn block here event = some here := by
  simp [turn, passage, apart]

theorem turn_quiet {event : Event} {place : Place} (foreign : event.block ≠ some block) :
    turn block place event = some place := by
  cases passage : event.passage with
  | none => simp [turn, passage]
  | some moves =>
      obtain ⟨other, before, next⟩ := moves
      apply turn_other passage
      rintro rfl
      exact foreign (by simp [Event.block, passage])

theorem turn_about {event : Event} {place next : Place} (about : event.block = some block)
    (turned : turn block place event = some next) :
    event.passage = some (block, place, next) := by
  cases passage : event.passage with
  | none => simp [Event.block, passage] at about
  | some moves =>
      obtain ⟨other, before, leads⟩ := moves
      obtain rfl : other = block := by simpa [Event.block, passage] using about
      simp only [turn, passage, if_true, Option.ite_none_right_eq_some, Option.some.injEq] at turned
      rw [turned.1, turned.2]

theorem turns_split {history rest : List Event} {start place : Place}
    (followed : (history ++ rest).foldlM (turn block) start = some place) :
    ∃ middle, history.foldlM (turn block) start = some middle ∧
      rest.foldlM (turn block) middle = some place := by
  rw [List.foldlM_append] at followed
  exact Option.bind_eq_some_iff.mp followed

theorem turns_next {event : Event} {rest : List Event} {start place : Place}
    (followed : (event :: rest).foldlM (turn block) start = some place) :
    ∃ middle, turn block start event = some middle ∧
      rest.foldlM (turn block) middle = some place := by
  rw [List.foldlM_cons] at followed
  exact Option.bind_eq_some_iff.mp followed

theorem last_put {history : List Event} (followed : follow block history = some .inside) :
    ∃ before rest, history = before ++ .put block :: rest ∧
      ∀ event ∈ rest, event.block ≠ some block := by
  induction history using List.reverseRecOn with
  | nil => cases followed
  | append_singleton history event ih =>
      obtain ⟨place, known, last⟩ := turns_split followed
      obtain ⟨next, turned, done⟩ := turns_next last
      cases done
      by_cases about : event.block = some block
      · have passage := turn_about about turned
        cases event with
        | put other =>
            cases passage
            exact ⟨history, [], rfl, by simp⟩
        | fresh | got | deleted | wild => cases passage
      · rw [turn_quiet about] at turned
        cases turned
        obtain ⟨before, rest, rfl, quiet⟩ := ih known
        refine ⟨before, rest ++ [event], by simp, ?_⟩
        intro other member
        rcases List.mem_append.mp member with earlier | last
        · exact quiet other earlier
        · rwa [List.mem_singleton.mp last]

theorem unborn_quiet {history : List Event} (followed : follow block history = some .unborn) :
    ∀ event ∈ history, event.block ≠ some block := by
  induction history using List.reverseRecOn with
  | nil => simp
  | append_singleton history event ih =>
      obtain ⟨place, known, last⟩ := turns_split followed
      obtain ⟨next, turned, done⟩ := turns_next last
      cases done
      have foreign : event.block ≠ some block := by
        intro about
        have passage := turn_about about turned
        cases event <;> cases passage
      rw [turn_quiet foreign] at turned
      cases turned
      intro other member
      rcases List.mem_append.mp member with earlier | last
      · exact ih known other earlier
      · rwa [List.mem_singleton.mp last]

theorem gone_quiet {rest : List Event} {place : Place}
    (followed : rest.foldlM (turn block) .gone = some place) :
    ∀ event ∈ rest, event.block ≠ some block := by
  induction rest with
  | nil => simp
  | cons event rest ih =>
      obtain ⟨next, turned, later⟩ := turns_next followed
      have foreign : event.block ≠ some block := by
        intro about
        have passage := turn_about about turned
        cases event <;> cases passage
      rw [turn_quiet foreign] at turned
      cases turned
      rw [List.forall_mem_cons]
      exact ⟨foreign, ih later⟩

theorem first_taken {rest : List Event} {place : Place}
    (followed : rest.foldlM (turn block) .inside = some place) :
    (place = .inside ∧ ∀ event ∈ rest, event.block ≠ some block) ∨
    ∃ between event later, rest = between ++ event :: later ∧
      (∀ other ∈ between, other.block ≠ some block) ∧
      (event = .got block ∨ event = .deleted block) := by
  induction rest with
  | nil =>
      cases followed
      exact Or.inl ⟨rfl, by simp⟩
  | cons event rest ih =>
      obtain ⟨next, turned, later⟩ := turns_next followed
      by_cases about : event.block = some block
      · right
        refine ⟨[], event, rest, rfl, by simp, ?_⟩
        have passage := turn_about about turned
        cases event with
        | got other =>
            cases passage
            exact Or.inl rfl
        | deleted other =>
            cases passage
            exact Or.inr rfl
        | fresh | put | wild => cases passage
      · rw [turn_quiet about] at turned
        cases turned
        rcases ih later with ⟨stays, quiet⟩ | ⟨between, taken, after, rfl, quiet, ends⟩
        · exact Or.inl ⟨stays, List.forall_mem_cons.mpr ⟨about, quiet⟩⟩
        · exact Or.inr ⟨event :: between, taken, after, rfl,
            List.forall_mem_cons.mpr ⟨about, quiet⟩, ends⟩

end History

section Places

theorem inside_split (t : θ) : s.Inside block ↔ block ∈ s.container ∨
    (s.pc t).carried = some block ∨ ∃ u, u ≠ t ∧ (s.pc u).carried = some block := by
  constructor
  · rintro (pooled | ⟨u, carried⟩)
    · exact Or.inl pooled
    · by_cases mine : u = t
      · rw [mine] at carried
        exact Or.inr (Or.inl carried)
      · exact Or.inr (Or.inr ⟨u, mine, carried⟩)
  · rintro (pooled | mine | ⟨u, _, carried⟩)
    · exact Or.inl pooled
    · exact Or.inr ⟨t, mine⟩
    · exact Or.inr ⟨u, carried⟩

omit [DecidableEq θ] in
theorem carried_alone (owned : Owned s) (mine : (s.pc t).carried = some block) :
    block ∉ s.container ∧ ¬∃ u, u ≠ t ∧ (s.pc u).carried = some block := by
  refine ⟨owned.apart t block mine, ?_⟩
  rintro ⟨u, apart, carried⟩
  exact apart (owned.single u t block carried mine)

omit [DecidableEq θ] in
theorem place_of (owned : Owned s) {place : Place} (followed : follow block s.history = some place) :
    (place = .unborn ↔ s.next ≤ block) ∧ (place = .inside ↔ s.Inside block) := by
  obtain ⟨known, same, facts⟩ := owned.placed block
  rw [same] at followed
  cases followed
  exact facts

omit [DecidableEq θ] in
theorem inside_followed (owned : Owned s) (inside : s.Inside block) :
    follow block s.history = some .inside := by
  obtain ⟨place, followed, _, known⟩ := owned.placed block
  rw [followed, known.mpr inside]

omit [DecidableEq θ] in
theorem placed_quiet (owned : Owned s) (history : after.history = s.history)
    (next : after.next = s.next) (inside : ∀ block, after.Inside block ↔ s.Inside block) :
    ∀ block, ∃ place, follow block after.history = some place ∧
      (place = .unborn ↔ after.next ≤ block) ∧ (place = .inside ↔ after.Inside block) := by
  intro block
  obtain ⟨place, followed, born, known⟩ := owned.placed block
  rw [history, next, inside block]
  exact ⟨place, followed, born, known⟩

omit [DecidableEq θ] in
theorem placed_event (owned : Owned s) {event : Event} {before place : Place}
    (passage : event.passage = some (block, before, place))
    (followed : follow block s.history = some before)
    (history : after.history = s.history ++ [event])
    (others : ∀ other, other ≠ block → (after.next ≤ other ↔ s.next ≤ other) ∧
      (after.Inside other ↔ s.Inside other))
    (self : (place = .unborn ↔ after.next ≤ block) ∧ (place = .inside ↔ after.Inside block)) :
    ∀ other, ∃ place, follow other after.history = some place ∧
      (place = .unborn ↔ after.next ≤ other) ∧ (place = .inside ↔ after.Inside other) := by
  intro other
  rw [history]
  by_cases same : other = block
  · subst same
    rw [follow_append event followed, turn_self passage]
    exact ⟨place, rfl, self⟩
  · obtain ⟨here, known, born, inside⟩ := owned.placed other
    rw [follow_append event known, turn_other passage (Ne.symm same), (others other same).1,
      (others other same).2]
    exact ⟨here, rfl, born, inside⟩

end Places

section OneStep

inductive StepOf (s : Container θ) (t : θ) : Container θ → Prop where
  | tested (at_ : s.pc t = .empty) :
      StepOf s t (s.goto t (if s.container = [] then .allocate else .pop))
  | missed (at_ : s.pc t = .pop) (nothing : s.container = []) : StepOf s t (s.goto t (.subtract none))
  | popped {block : BlockId} {rest : List BlockId} (at_ : s.pc t = .pop)
      (front : s.container = block :: rest) :
      StepOf s t { s.goto t (.subtract (some block)) with container := rest }
  | returned {block : BlockId} (at_ : s.pc t = .subtract (some block)) :
      StepOf s t { s.goto t .idle with size := s.size - 1, history := s.history ++ [.got block] }
  | returnedWild (at_ : s.pc t = .subtract none) :
      StepOf s t { s.goto t .idle with size := s.size - 1, history := s.history ++ [.wild] }
  | allocated (at_ : s.pc t = .allocate) :
      StepOf s t { s.goto t .idle with next := s.next + 1, history := s.history ++ [.fresh s.next] }
  | loaded {ptr : BlockId} {pc : Pc} (at_ : s.pc t = .load ptr)
      (goes : pc = .push ptr ∨ pc = .delete ptr) : StepOf s t (s.goto t pc)
  | pushed {ptr : BlockId} (at_ : s.pc t = .push ptr) :
      StepOf s t { s.goto t .add with container := s.container ++ [ptr] }
  | added (at_ : s.pc t = .add) : StepOf s t { s.goto t .idle with size := s.size + 1 }
  | deleted {ptr : BlockId} (at_ : s.pc t = .delete ptr) :
      StepOf s t { s.goto t .idle with history := s.history ++ [.deleted ptr] }

theorem step_cases (moved : s.step t = some after) : StepOf s t after := by
  unfold Container.step at moved
  cases at_ : s.pc t with
  | idle =>
      rw [at_] at moved
      cases moved
  | empty =>
      rw [at_] at moved
      cases moved
      exact .tested at_
  | pop =>
      rw [at_] at moved
      dsimp only at moved
      split at moved
      · rename_i nothing
        cases moved
        exact .missed at_ nothing
      · rename_i front
        cases moved
        exact .popped at_ front
  | subtract ret =>
      rw [at_] at moved
      cases ret with
      | none =>
          cases moved
          exact .returnedWild at_
      | some block =>
          cases moved
          exact .returned at_
  | allocate =>
      rw [at_] at moved
      cases moved
      exact .allocated at_
  | load ptr =>
      rw [at_] at moved
      cases moved
      refine .loaded at_ ?_
      split
      · exact Or.inl rfl
      · exact Or.inr rfl
  | push ptr =>
      rw [at_] at moved
      cases moved
      exact .pushed at_
  | add =>
      rw [at_] at moved
      cases moved
      exact .added at_
  | delete ptr =>
      rw [at_] at moved
      cases moved
      exact .deleted at_

theorem owned_step {pc : Pc} (owned : Owned s) (pcs : after.pc = Function.update s.pc t pc)
    (placed : ∀ block, ∃ place, follow block after.history = some place ∧
      (place = .unborn ↔ after.next ≤ block) ∧ (place = .inside ↔ after.Inside block))
    (pooled : after.container.Nodup)
    (mine : ∀ block, pc.carried = some block →
      block ∉ after.container ∧ ¬∃ u, u ≠ t ∧ (s.pc u).carried = some block)
    (others : ∀ u, u ≠ t → ∀ block, (s.pc u).carried = some block → block ∉ after.container)
    (stored : pc ≠ .subtract none) : Owned after := by
  refine ⟨placed, pooled, ?_, ?_, ?_⟩
  · intro u block carried
    rw [pcs] at carried
    by_cases same : u = t
    · subst same
      rw [Function.update_self] at carried
      exact (mine block carried).1
    · rw [Function.update_of_ne same] at carried
      exact others u same block carried
  · intro u v block first second
    rw [pcs] at first second
    by_cases same : u = t
    · by_cases sameOther : v = t
      · exact same.trans sameOther.symm
      · rw [same, Function.update_self] at first
        rw [Function.update_of_ne sameOther] at second
        exact absurd ⟨v, sameOther, second⟩ (mine block first).2
    · rw [Function.update_of_ne same] at first
      by_cases sameOther : v = t
      · rw [sameOther, Function.update_self] at second
        exact absurd ⟨u, same, first⟩ (mine block second).2
      · rw [Function.update_of_ne sameOther] at second
        exact owned.single u v block first second
  · intro u
    rw [pcs]
    by_cases same : u = t
    · rwa [same, Function.update_self]
    · rw [Function.update_of_ne same]
      exact owned.stored u

theorem inside_update {pc : Pc} (pcs : after.pc = Function.update s.pc t pc) :
    after.Inside block ↔ block ∈ after.container ∨ pc.carried = some block ∨
      ∃ u, u ≠ t ∧ (s.pc u).carried = some block := by
  rw [inside_split t, pcs, Function.update_self]
  refine or_congr_right (or_congr_right (exists_congr fun u => and_congr_right fun apart => ?_))
  rw [Function.update_of_ne apart]

theorem owned_goto {pc : Pc} (owned : Owned s) (carried : pc.carried = (s.pc t).carried)
    (stored : pc ≠ .subtract none) : Owned (s.goto t pc) := by
  refine owned_step owned rfl ?_ owned.pooled ?_ (fun u _ => owned.apart u) stored
  · refine placed_quiet owned ?_ ?_ ?_
    · rfl
    · rfl
    · intro block
      rw [inside_update rfl, inside_split t, carried]
      rfl
  · intro block mine
    rw [carried] at mine
    exact carried_alone owned mine

theorem owned_popped {rest : List BlockId} (owned : Owned s) (at_ : s.pc t = .pop)
    (front : s.container = block :: rest) :
    Owned { s.goto t (.subtract (some block)) with container := rest } := by
  have pooled := owned.pooled
  rw [front, List.nodup_cons] at pooled
  have away : ∀ u other, (s.pc u).carried = some other → other ≠ block ∧ other ∉ rest := by
    intro u other carried
    have outside := owned.apart u other carried
    rw [front, List.mem_cons, not_or] at outside
    exact outside
  refine owned_step owned rfl ?_ pooled.2 ?_ ?_ (by simp)
  · refine placed_quiet owned ?_ ?_ ?_
    · rfl
    · rfl
    · intro other
      rw [inside_update rfl, inside_split t, at_, front]
      simp [Pc.carried, or_assoc, or_left_comm, eq_comm]
  · rintro other ⟨rfl⟩
    refine ⟨pooled.1, ?_⟩
    rintro ⟨u, _, carried⟩
    exact (away u block carried).1 rfl
  · intro u _ other carried
    exact (away u other carried).2

theorem owned_leaves {event : Event} {place : Place} (owned : Owned s)
    (mine : (s.pc t).carried = some block)
    (passage : event.passage = some (block, .inside, place))
    (away : place ≠ .inside ∧ place ≠ .unborn) (pcs : after.pc = Function.update s.pc t .idle)
    (container : after.container = s.container) (next : after.next = s.next)
    (history : after.history = s.history ++ [event]) : Owned after := by
  have alone := carried_alone owned mine
  have followed := inside_followed owned (Or.inr ⟨t, mine⟩)
  have pooled := owned.pooled
  have others := fun u (_ : u ≠ t) => owned.apart u
  rw [← container] at alone pooled others
  refine owned_step owned pcs ?_ pooled nofun others nofun
  refine placed_event owned passage followed history ?_ ?_
  · intro other apart
    rw [next, inside_update pcs, inside_split t, mine, container]
    simp [Pc.carried, Ne.symm apart]
  · have born := (place_of owned followed).1
    rw [inside_update pcs, next, ← born]
    simpa [Pc.carried, away, alone.1] using alone.2

theorem owned_allocated (owned : Owned s) (at_ : s.pc t = .allocate) :
    Owned { s.goto t .idle with
      next := s.next + 1
      history := s.history ++ [.fresh s.next] } := by
  have none_ : (s.pc t).carried = none := by rw [at_]; rfl
  obtain ⟨place, followed, born, inside⟩ := owned.placed s.next
  rw [born.mpr (Nat.le_refl _)] at followed inside
  refine owned_step owned rfl ?_ owned.pooled nofun (fun u _ => owned.apart u) nofun
  have same : ∀ other, Container.Inside { s.goto t .idle with
      next := s.next + 1
      history := s.history ++ [.fresh s.next] } other ↔ s.Inside other := by
    intro other
    rw [inside_update rfl, inside_split t, none_]
    rfl
  refine placed_event owned (rfl : Event.passage (.fresh s.next) = _) followed ?_ ?_ ?_
  · rfl
  · intro other apart
    exact ⟨⟨Nat.le_of_succ_le, fun least => Nat.lt_of_le_of_ne least (Ne.symm apart)⟩, same other⟩
  · rw [same, ← inside]
    change (Place.out = .unborn ↔ s.next + 1 ≤ s.next) ∧ _
    simp

theorem owned_put (owned : Owned s) (at_ : s.pc t = .idle)
    (followed : follow block s.history = some .out) :
    Owned { s.goto t (.load block) with history := s.history ++ [.put block] } := by
  have none_ : (s.pc t).carried = none := by rw [at_]; rfl
  obtain ⟨born, inside⟩ := place_of owned followed
  have outside : ¬s.Inside block := by simpa using inside
  rw [inside_split t, none_] at outside
  simp only [reduceCtorEq, false_or, not_or] at outside
  refine owned_step owned rfl ?_ owned.pooled ?_ (fun u _ => owned.apart u) nofun
  · refine placed_event owned (rfl : Event.passage (.put block) = _) followed ?_ ?_ ?_
    · rfl
    · intro other apart
      refine ⟨Iff.rfl, ?_⟩
      rw [inside_update rfl, inside_split t, none_]
      simp [Pc.carried, Ne.symm apart, Container.goto]
    · rw [inside_update rfl]
      refine ⟨?_, by simp [Pc.carried]⟩
      simpa [Container.goto] using born
  · rintro other ⟨rfl⟩
    exact outside

theorem owned_pushed (owned : Owned s) (at_ : s.pc t = .push block) :
    Owned { s.goto t .add with container := s.container ++ [block] } := by
  have mine : (s.pc t).carried = some block := by rw [at_, Pc.carried]
  have alone := carried_alone owned mine
  refine owned_step owned rfl ?_ ?_ nofun ?_ nofun
  · refine placed_quiet owned ?_ ?_ ?_
    · rfl
    · rfl
    · intro other
      rw [inside_update rfl, inside_split t, mine]
      simp [Pc.carried, or_assoc, eq_comm]
  · rw [List.nodup_append]
    refine ⟨owned.pooled, List.nodup_singleton _, ?_⟩
    rintro other pooled _ last rfl
    rw [List.mem_singleton.mp last] at pooled
    exact alone.1 pooled
  · intro u apart other carried pooled
    rw [List.mem_append, List.mem_singleton] at pooled
    rcases pooled with old | rfl
    · exact owned.apart u other carried old
    · exact alone.2 ⟨u, apart, carried⟩

theorem owned_next (owned : Owned s) (finds : PopsFind s (.step t)) (moved : s.step t = some after) :
    Owned after := by
  cases step_cases moved with
  | tested at_ =>
      refine owned_goto owned ?_ ?_
      · rw [at_]
        split <;> rfl
      · split <;> nofun
  | missed at_ nothing => exact absurd nothing (finds at_)
  | popped at_ front => exact owned_popped owned at_ front
  | @returned block at_ =>
      have mine : (s.pc t).carried = some block := by rw [at_, Pc.carried]
      have passage : Event.passage (.got block) = some (block, .inside, .out) := rfl
      exact owned_leaves owned mine passage ⟨nofun, nofun⟩ rfl rfl rfl rfl
  | returnedWild at_ => exact absurd at_ (owned.stored t)
  | allocated at_ => exact owned_allocated owned at_
  | loaded at_ goes =>
      rcases goes with rfl | rfl
      · exact owned_goto owned (by rw [at_]; rfl) nofun
      · exact owned_goto owned (by rw [at_]; rfl) nofun
  | pushed at_ => exact owned_pushed owned at_
  | added at_ =>
      have idle : Owned (s.goto t .idle) := owned_goto owned (by rw [at_]; rfl) nofun
      exact ⟨idle.placed, idle.pooled, idle.apart, idle.single, idle.stored⟩
  | @deleted block at_ =>
      have mine : (s.pc t).carried = some block := by rw [at_, Pc.carried]
      have passage : Event.passage (.deleted block) = some (block, .inside, .gone) := rfl
      exact owned_leaves owned mine passage ⟨nofun, nofun⟩ rfl rfl rfl rfl

theorem owned_run {move : Move θ} (owned : Owned s) (finds : PopsFind s move)
    (moved : run s move = some after) : Owned after := by
  cases move with
  | get t =>
      simp only [run] at moved
      split at moved
      · rename_i at_
        cases moved
        exact owned_goto owned (by rw [at_]; rfl) nofun
      · cases moved
  | push t ptr =>
      simp only [run] at moved
      split at moved
      · rename_i guard
        cases moved
        exact owned_put owned guard.1 guard.2
      · cases moved
  | step t => exact owned_next owned finds moved
  | allocationFails t =>
      simp only [run] at moved
      split at moved
      · rename_i at_
        cases moved
        exact owned_goto owned (by rw [at_]; rfl) nofun
      · cases moved

end OneStep

section Runs

omit [DecidableEq θ] in
theorem construct_owned (size : Nat) : Owned (Container.construct size : Container θ) := by
  refine ⟨?_, List.nodup_nil, nofun, nofun, nofun⟩
  intro block
  refine ⟨.unborn, rfl, by simp [Container.construct], ?_⟩
  simp [Container.Inside, Container.construct, Pc.carried]

theorem reachable_owned (reached : ReachableBy (containerSystem θ) PopsFind s) : Owned s := by
  have starts : ∀ state, (containerSystem θ).init state → Owned state := by
    rintro state ⟨size, rfl⟩
    exact construct_owned size
  apply invariant starts _ reached
  intro before move after owned finds moved
  exact owned_run owned finds moved

theorem wild_step {move : Move θ} (stored : ∀ t, s.pc t ≠ .subtract none)
    (moved : run s move = some after) (clean : .wild ∉ s.history) : .wild ∉ after.history := by
  cases move with
  | get t =>
      simp only [run] at moved
      split at moved <;> cases moved
      exact clean
  | push t ptr =>
      simp only [run] at moved
      split at moved <;> cases moved
      simpa using clean
  | allocationFails t =>
      simp only [run] at moved
      split at moved <;> cases moved
      exact clean
  | step t =>
      cases step_cases moved with
      | tested | missed | popped | loaded | pushed | added => exact clean
      | returnedWild at_ => exact absurd at_ (stored t)
      | returned | allocated | deleted => simpa using clean

theorem reachable_clean (reached : ReachableBy (containerSystem θ) PopsFind s) :
    .wild ∉ s.history := by
  induction reached with
  | start begins =>
      obtain ⟨size, rfl⟩ := begins
      exact List.not_mem_nil
  | next earlier _ moved ih => exact wild_step (reachable_owned earlier).stored moved ih

/-- In every run in which no pop finds the container empty: each `get` returns a new
block, or one that a `push` put in and that nothing happened to since; each block
that was pushed is inside, and there once, until it is returned by one `get` or
deleted, and after that nothing happens to it. -/
theorem every_block_has_one_owner (reached : ReachableBy (containerSystem θ) PopsFind s) :
    .wild ∉ s.history ∧
    (∀ before block rest, s.history = before ++ .fresh block :: rest →
      ∀ event ∈ before, event.block ≠ some block) ∧
    (∀ before block rest, s.history = before ++ .got block :: rest →
      ∃ earlier between, before = earlier ++ .put block :: between ∧
        ∀ event ∈ between, event.block ≠ some block) ∧
    (∀ before block rest, s.history = before ++ .put block :: rest →
      (s.Inside block ∧ ∀ event ∈ rest, event.block ≠ some block) ∨
      ∃ between event later, rest = between ++ event :: later ∧
        (∀ other ∈ between, other.block ≠ some block) ∧
        (event = .got block ∨ event = .deleted block)) ∧
    (∀ before block rest, s.history = before ++ .deleted block :: rest →
      ∀ event ∈ rest, event.block ≠ some block) ∧
    s.container.Nodup ∧
    ∀ t block, (s.pc t).carried = some block → block ∉ s.container ∧
      ∀ u, (s.pc u).carried = some block → u = t := by
  have owned := reachable_owned reached
  -- What the history says at an event about a block.
  have at_event : ∀ {before rest : List Event} {event : Event} {block : BlockId} {here next : Place},
      s.history = before ++ event :: rest → event.passage = some (block, here, next) →
      follow block before = some here ∧ ∃ place, rest.foldlM (turn block) next = some place ∧
        (place = .inside ↔ s.Inside block) := by
    intro before rest event block here next split passage
    obtain ⟨place, followed, _, inside⟩ := owned.placed block
    rw [split] at followed
    obtain ⟨middle, known, later⟩ := turns_split followed
    obtain ⟨leads, turned, ends⟩ := turns_next later
    have same := turn_about (by simp [Event.block, passage]) turned
    rw [passage] at same
    cases same
    exact ⟨known, place, ends, inside⟩
  refine ⟨reachable_clean reached, ?_, ?_, ?_, ?_, owned.pooled, ?_⟩
  · intro before block rest split
    exact unborn_quiet (at_event split rfl).1
  · intro before block rest split
    exact last_put (at_event split rfl).1
  · intro before block rest split
    obtain ⟨_, place, ends, inside⟩ := at_event split rfl
    rcases first_taken ends with ⟨stays, quiet⟩ | taken
    · exact Or.inl ⟨inside.mp stays, quiet⟩
    · exact Or.inr taken
  · intro before block rest split
    obtain ⟨_, place, ends, _⟩ := at_event split rfl
    exact gone_quiet ends
  · intro t block carried
    exact ⟨owned.apart t block carried, fun u other => owned.single u t block other carried⟩

/-- The run of moves that all satisfy `allowed`, on a container of the default size. -/
def afterMoves (allowed : Container θ → Move θ → Prop) [∀ s move, Decidable (allowed s move)]
    (moves : List (Move θ)) : Option (Container θ) :=
  moves.foldlM (fun s move => if allowed s move then run s move else none) (.construct 512)

theorem moves_reachable {allowed : Container θ → Move θ → Prop}
    [∀ s move, Decidable (allowed s move)] {moves : List (Move θ)}
    (ran : (afterMoves allowed moves).isSome) :
    ReachableBy (containerSystem θ) allowed ((afterMoves allowed moves).get ran) := by
  have begins : (containerSystem θ).init (.construct 512) := ⟨512, rfl⟩
  exact guarded_reachable (fun _ _ _ moved => moved) (.start begins) (Option.some_get ran).symm

def pooled : List (Move Bool) :=
  [.get true, .step true, .step true, .push true 0, .step true, .step true, .step true]

/-- Both threads find the container with one block; the second one pops nothing. -/
def lastBlock : List (Move Bool) :=
  pooled ++ [.get true, .get false, .step true, .step false, .step true, .step false, .step true,
    .step false]

theorem last_block_runs : (afterMoves (fun _ _ => True) lastBlock).isSome := by decide

theorem get_returns_wild :
    ¬∀ s : Container Bool, Reachable (containerSystem Bool) s → .wild ∉ s.history := by
  intro clean
  apply clean _ (moves_reachable last_block_runs)
  decide

def takingTurns : List (Move Bool) :=
  pooled ++ [.get true, .step true, .step true, .step true, .get false, .step false, .step false]

theorem taking_turns_runs : (afterMoves PopsFind takingTurns).isSome := by decide

def tookTurns : Container Bool := (afterMoves PopsFind takingTurns).get taking_turns_runs

theorem every_block_has_one_owner_sample :
    .wild ∉ tookTurns.history ∧
    (∀ before block rest, tookTurns.history = before ++ .fresh block :: rest →
      ∀ event ∈ before, event.block ≠ some block) ∧
    (∀ before block rest, tookTurns.history = before ++ .got block :: rest →
      ∃ earlier between, before = earlier ++ .put block :: between ∧
        ∀ event ∈ between, event.block ≠ some block) ∧
    (∀ before block rest, tookTurns.history = before ++ .put block :: rest →
      (tookTurns.Inside block ∧ ∀ event ∈ rest, event.block ≠ some block) ∨
      ∃ between event later, rest = between ++ event :: later ∧
        (∀ other ∈ between, other.block ≠ some block) ∧
        (event = .got block ∨ event = .deleted block)) ∧
    (∀ before block rest, tookTurns.history = before ++ .deleted block :: rest →
      ∀ event ∈ rest, event.block ≠ some block) ∧
    tookTurns.container.Nodup ∧
    ∀ t block, (tookTurns.pc t).carried = some block → block ∉ tookTurns.container ∧
      ∀ u, (tookTurns.pc u).carried = some block → u = t :=
  every_block_has_one_owner (moves_reachable taking_turns_runs)

end Runs

end Npoller.ContainerRace
