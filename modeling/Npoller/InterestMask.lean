import Npoller.TcpChanges

/-!
The event mask that the kernel has for the descriptor of a tcp. `add_io` gives it
with EPOLL_CTL_ADD; `event_processor::process` and `process_instant_write` look at
three flags of the instance before they touch it, and give the new mask with
EPOLL_CTL_MOD where `get_event` has succeeded and a flag has changed. The instances
of an event loop are started at any time and take their steps in any order.
-/

namespace Npoller.InterestMask

open IoBuffer IoWrite MemContainer StepSystem TcpChanges TcpLoop TcpSetters

/-- `tcp::get_event`. EPOLLET is overwritten by each assignment that follows it. -/
def getEvent (status : TcpStatus) (writeBusy : Bool) : Option Events :=
  match status with
  | .initializing | .connecting => some ⟨true, true, false⟩
  | .connected => some ⟨true, writeBusy, true⟩
  | .peerShutdownWrite => some ⟨false, true, false⟩
  | .shutdownWrite => some ⟨true, false, true⟩
  | .closed | .invalid => none

structure Flags where
  readable : Bool
  writable : Bool
  writeBusy : Bool
  deriving DecidableEq

def flagsOf (status : TcpStatus) (writeBusy : Bool) : Flags :=
  ⟨decide (Readable status), decide (Writable status), writeBusy⟩

/-- `io::compare_status`. It compares the fourth flag with itself. -/
def compareStatus (before now : Flags) : Bool :=
  before.readable != now.readable || before.writable != now.writable ||
    before.writeBusy != now.writeBusy

/-- `mask` is what `epoll_ctl` was given last, `sampled` the flags from before the event
or the instant write that the loop thread is in. -/
structure Watched (θ : Type*) where
  tcp : Tcp θ
  mask : Events
  sampled : Option Flags

variable {θ : Type*}

def flags (tcp : Tcp θ) : Flags := flagsOf tcp.status tcp.writeBusy

def Watched.maskAfter (s : Watched θ) (tcp : Tcp θ) : Events :=
  match s.sampled, getEvent tcp.status tcp.writeBusy with
  | some before, some mask =>
      if s.tcp.todo = [.getEvent] ∧ compareStatus before (flags tcp) = true then mask else s.mask
  | _, _ => s.mask

def Watched.goTo (s : Watched θ) (tcp : Tcp θ) : Watched θ :=
  if tcp.todo = [] then ⟨tcp, s.maskAfter tcp, none⟩ else { s with tcp }

def Watched.begin (s : Watched θ) : Call → Tcp θ → Watched θ
  | .event _, tcp | .instantWrite, tcp => { s with tcp, sampled := some (flags s.tcp) }
  | .connect, tcp | .close, tcp => { s with tcp }

section Runs
variable [DecidableEq θ]

def run (s : Watched θ) : Move θ → Option (Watched θ)
  | .call made => (callMove s.tcp made).map (s.begin made)
  | .loop input => (loopMove s.tcp input).map s.goTo
  | .register t type ioId size => (registerMove s.tcp t type ioId size).map s.goTo
  | .advance t => (TcpLoop.advance s.tcp t).map s.goTo

/-- One instance from its `add_io` on, in any open status. -/
def watchSystem (θ : Type*) [DecidableEq θ] : System (Watched θ) (Move θ) where
  init s := ∃ fd status connectHandler mem mask, getEvent status false = some mask ∧
    s = ⟨.construct fd status connectHandler mem, mask, none⟩
  step before move after := run before move = some after

end Runs

/-- `::connect` does not succeed at once in `tcp::connect`. -/
def Gradual (s : Watched θ) : Move θ → Prop
  | .loop (.connected result) => s.tcp.todo.head? = some .connect → s.tcp.status = .initializing →
      result ≠ .succeeded ∧ result ≠ .isConnected
  | _ => True

instance (s : Watched θ) : (move : Move θ) → Decidable (Gradual s move)
  | .loop (.connected _) => inferInstanceAs (Decidable (_ → _ → _ ∧ _))
  | .loop (.processed _) | .loop (.flushed _) | .loop (.read _) | .loop (.wrote _) | .loop .closes
  | .loop .returns | .call _ | .register _ _ _ _ | .advance _ => inferInstanceAs (Decidable True)

def Current (s : Watched θ) : Prop := getEvent s.tcp.status s.tcp.writeBusy = some s.mask

instance (s : Watched θ) : Decidable (Current s) := inferInstanceAs (Decidable (_ = _))

/-- Between events the mask is the current one. Inside, it is the one that goes with
the sampled flags. -/
inductive Fresh (s : Watched θ) : Prop where
  | final (final : Final s.tcp.status)
  | outside (none_ : s.sampled = none) (current : Current s)
      (todo : ∀ instr ∈ s.tcp.todo, instr = .connect ∨ Instr.Closing instr)
  | inside {before : Flags} (some_ : s.sampled = some before)
      (masked : ∀ status writeBusy, ¬Final status → flagsOf status writeBusy = before →
        getEvent status writeBusy = some s.mask)
      (ends : Ends s.tcp.status s.tcp.todo)

variable {s after : Watched θ} {tcp : Tcp θ}

theorem flags_mask {status other : TcpStatus} {writeBusy otherBusy : Bool} (open_ : ¬Final status)
    (otherOpen : ¬Final other) (same : flagsOf status writeBusy = flagsOf other otherBusy) :
    getEvent status writeBusy = getEvent other otherBusy := by
  obtain ⟨readable, writable, rfl⟩ := Flags.mk.inj same
  rw [decide_eq_decide] at readable writable
  cases status <;> cases other <;> simp_all [Readable, Writable, Final, getEvent]

theorem compare_same (before now : Flags) : compareStatus before now = false ↔ before = now := by
  obtain ⟨readable, writable, writeBusy⟩ := before
  obtain ⟨nowReadable, nowWritable, nowBusy⟩ := now
  simp [compareStatus, and_assoc]

theorem get_event_open {status : TcpStatus} (open_ : ¬Final status) (writeBusy : Bool) :
    ∃ mask, getEvent status writeBusy = some mask := by
  cases status with
  | closed => exact absurd (.inl rfl) open_
  | invalid => exact absurd (.inr rfl) open_
  | initializing | connecting | connected | peerShutdownWrite | shutdownWrite => exact ⟨_, rfl⟩

@[simp] theorem go_to_tcp : (s.goTo tcp).tcp = tcp := by
  unfold Watched.goTo
  split <;> rfl

theorem go_to_final (final : Final tcp.status) : Fresh (s.goTo tcp) := by
  refine .final ?_
  rwa [go_to_tcp]

theorem go_to_outside (none_ : s.sampled = none)
    (current : getEvent tcp.status tcp.writeBusy = some s.mask)
    (todo : ∀ instr ∈ tcp.todo, instr = .connect ∨ Instr.Closing instr) : Fresh (s.goTo tcp) := by
  have kept : s.maskAfter tcp = s.mask := by
    unfold Watched.maskAfter
    rw [none_]
  unfold Watched.goTo
  split
  · refine .outside rfl ?_ todo
    rw [kept]
    exact current
  · exact .outside none_ current todo

theorem go_to_inside {before : Flags} (some_ : s.sampled = some before)
    (masked : ∀ status writeBusy, ¬Final status → flagsOf status writeBusy = before →
      getEvent status writeBusy = some s.mask)
    (ends : Ends tcp.status tcp.todo) : Fresh (s.goTo tcp) := by
  unfold Watched.goTo
  rw [if_neg (ends_busy ends)]
  exact .inside some_ masked ends

theorem go_to_ended {before : Flags} (some_ : s.sampled = some before)
    (masked : ∀ status writeBusy, ¬Final status → flagsOf status writeBusy = before →
      getEvent status writeBusy = some s.mask)
    (last : s.tcp.todo = [.getEvent]) (idle : tcp.todo = []) (open_ : ¬Final tcp.status) :
    Fresh (s.goTo tcp) := by
  obtain ⟨mask, got⟩ := get_event_open open_ tcp.writeBusy
  unfold Watched.goTo
  rw [if_pos idle]
  refine .outside rfl ?_ ?_
  · unfold Current Watched.maskAfter
    rw [some_, got]
    dsimp only
    split
    · rfl
    · rename_i unchanged
      have same : compareStatus before (flags tcp) = false := by
        by_contra changed
        rw [Bool.not_eq_false] at changed
        exact unchanged ⟨last, changed⟩
      have equal := (compare_same before (flags tcp)).mp same
      rw [← got]
      exact masked tcp.status tcp.writeBusy open_ equal.symm
  · rw [idle]
    nofun

section Loop
variable {rest : List Instr} {instr : Instr} {input : Input}

theorem connect_current (current : Current s) (at_ : s.tcp.todo = .connect :: rest)
    (gradual : Gradual s (.loop input)) (moved : s.tcp.run rest .connect input = some tcp) :
    getEvent tcp.status tcp.writeBusy = some s.mask ∧
      ∃ next, tcp.todo = next ++ rest ∧ ∀ pushed ∈ next, Instr.Closing pushed := by
  have handled : ∀ pushed ∈ s.tcp.handleConnectResult ++ [.close], Instr.Closing pushed := by
    unfold Tcp.handleConnectResult
    split <;> simp [Instr.Closing]
  cases input with
  | connected result =>
      have slow := gradual (by rw [at_]; rfl)
      cases moved
      by_cases status : s.tcp.status = .initializing
      · rw [if_pos status]
        rw [Current, status] at current
        cases result with
        | succeeded => exact absurd rfl (slow status).1
        | isConnected => exact absurd rfl (slow status).2
        | inProgress => exact ⟨current, [], rfl, List.forall_mem_nil _⟩
        | interrupted =>
            refine ⟨?_, [], rfl, List.forall_mem_nil _⟩
            simp only [Tcp.connectResult, status]
            exact current
        | unknown | refused =>
            refine ⟨?_, _, rfl, handled⟩
            simp only [Tcp.connectResult, status]
            exact current
      · rw [if_neg status]
        exact ⟨current, [], rfl, List.forall_mem_nil _⟩
  | processed _ | flushed _ | read _ | wrote _ | closes | returns => cases moved

theorem outside_loop (none_ : s.sampled = none) (current : Current s)
    (todo : ∀ instr ∈ s.tcp.todo, instr = .connect ∨ Instr.Closing instr)
    (gradual : Gradual s (.loop input)) (at_ : s.tcp.todo = instr :: rest)
    (moved : s.tcp.run rest instr input = some tcp) : Fresh (s.goTo tcp) := by
  rw [at_] at todo
  obtain ⟨here, others⟩ := List.forall_mem_cons.mp todo
  rcases here with rfl | closing
  · obtain ⟨masked, next, now, pushed⟩ := connect_current current at_ gradual moved
    apply go_to_outside none_ masked
    rw [now]
    exact closing_above pushed others
  · obtain ⟨⟨next, now, pushed⟩, status, writeBusy, _, _⟩ := closing_step closing moved
    rcases status with same | ⟨_, shut⟩
    · apply go_to_outside none_
      · rw [same, writeBusy]
        exact current
      · rw [now]
        exact closing_above pushed others
    · exact go_to_final (.inl shut)

theorem loop_fresh (fresh : Fresh s) (gradual : Gradual s (.loop input))
    (at_ : s.tcp.todo = instr :: rest) (moved : s.tcp.run rest instr input = some tcp) :
    Fresh (s.goTo tcp) := by
  by_cases ended : Final tcp.status
  · exact go_to_final ended
  · cases fresh with
    | final final => exact absurd (final_step final moved) ended
    | outside none_ current todo => exact outside_loop none_ current todo gradual at_ moved
    | inside some_ masked ends =>
        by_cases open_ : Final s.tcp.status
        · exact absurd (final_step open_ moved) ended
        · rcases ends_step open_ ends at_ moved with final | remains | ⟨last, idle⟩
          · exact absurd final ended
          · exact go_to_inside some_ masked remains
          · exact go_to_ended some_ masked last idle ended

end Loop

theorem frame_fresh (fresh : Fresh s) (status : tcp.status = s.tcp.status)
    (writeBusy : tcp.writeBusy = s.tcp.writeBusy) (todo : tcp.todo = s.tcp.todo) :
    Fresh (s.goTo tcp) := by
  cases fresh with
  | final final =>
      apply go_to_final
      rwa [status]
  | outside none_ current others =>
      apply go_to_outside none_
      · rw [status, writeBusy]
        exact current
      · rwa [todo]
  | inside some_ masked ends =>
      apply go_to_inside some_ masked
      rwa [status, todo]

theorem call_fresh {made : Call} (fresh : Fresh s) (moved : callMove s.tcp made = some tcp) :
    Fresh (s.begin made tcp) := by
  by_cases ended : Final s.tcp.status
  · obtain ⟨_, readyToWrite, next, _, rfl⟩ := call_steps moved
    cases made <;> exact .final ended
  have idle := (call_steps moved).1
  have current : Current s := by
    cases fresh with
    | final final => exact absurd final ended
    | outside _ current _ => exact current
    | inside _ _ ends => exact absurd idle (ends_busy ends)
  have none_ : s.sampled = none := by
    cases fresh with
    | final final => exact absurd final ended
    | outside none_ _ _ => exact none_
    | inside _ _ ends => exact absurd idle (ends_busy ends)
  have masked : ∀ status writeBusy, ¬Final status → flagsOf status writeBusy = flags s.tcp →
      getEvent status writeBusy = some s.mask := by
    intro status writeBusy open_ same
    exact (flags_mask open_ ended same).trans current
  cases made with
  | event events =>
      simp only [callMove] at moved
      split at moved
      · cases moved
        exact .inside rfl masked .dispatch
      · cases moved
  | instantWrite =>
      simp only [callMove] at moved
      split at moved
      · cases moved
        have ends : Ends s.tcp.status ([.writeFlush, .directWrite, .processWrite] ++ [.getEvent]) :=
          .simple (.inl rfl)
        exact .inside rfl masked ends
      · cases moved
  | connect =>
      rw [callMove, if_pos idle] at moved
      cases moved
      exact .outside none_ current (by simp [Watched.begin])
  | close =>
      rw [callMove, if_pos idle] at moved
      cases moved
      exact .outside none_ current (by simp [Watched.begin, Instr.Closing])

section Threads
variable [DecidableEq θ]

theorem step_fresh {move : Move θ} (fresh : Fresh s) (gradual : Gradual s move)
    (moved : run s move = some after) : Fresh after := by
  cases move with
  | call made =>
      obtain ⟨tcp, began, rfl⟩ := Option.map_eq_some_iff.mp moved
      exact call_fresh fresh began
  | loop input =>
      obtain ⟨tcp, looped, rfl⟩ := Option.map_eq_some_iff.mp moved
      obtain ⟨_, _, at_, ran⟩ := loop_at looped
      exact loop_fresh fresh gradual at_ ran
  | register t type ioId size =>
      obtain ⟨tcp, stepped, rfl⟩ := Option.map_eq_some_iff.mp moved
      have step := register_steps stepped
      apply frame_fresh fresh <;> cases step <;> rfl
  | advance t =>
      obtain ⟨tcp, stepped, rfl⟩ := Option.map_eq_some_iff.mp moved
      have step := advance_steps stepped
      apply frame_fresh fresh <;> cases step <;> rfl

theorem watched_fresh (reached : ReachableBy (watchSystem θ) Gradual s) : Fresh s := by
  apply invariant _ _ reached
  · rintro state ⟨fd, status, connectHandler, mem, mask, got, rfl⟩
    exact .outside rfl got nofun
  · exact fun _ _ _ fresh gradual moved => step_fresh fresh gradual moved

variable {κ : Type*} [DecidableEq κ] {state : κ → Option (Watched θ)}

/-- In every run of any number of instances in which no `::connect` of `tcp::connect`
succeeds at once: whenever the loop thread has nothing to do, the mask of every open
instance is the one that `get_event` computes. -/
theorem mask_never_stale (reached : ReachableBy (family (watchSystem θ) κ) (Each Gradual) state)
    (idle : ∀ k s, state k = some s → s.tcp.todo = []) :
    ∀ k s, state k = some s → ¬Final s.tcp.status → Current s := by
  intro k s here open_
  cases watched_fresh (component_reachable reached here) with
  | final final => exact absurd final open_
  | outside _ current _ => exact current
  | inside _ _ ends => exact absurd (idle k s here) (ends_busy ends)

/-- The run of moves that all satisfy `allowed`, on an instance that has been added. -/
def afterMoves (allowed : Watched θ → Move θ → Prop) [∀ s move, Decidable (allowed s move)]
    (moves : List (Move θ)) : Option (Watched θ) :=
  moves.foldlM (fun s move => if allowed s move then run s move else none)
    ⟨.construct 3 .initializing false (.initial (fun _ _ => 0) 256), ⟨true, true, false⟩, none⟩

theorem moves_reachable {allowed : Watched θ → Move θ → Prop}
    [∀ s move, Decidable (allowed s move)] {moves : List (Move θ)}
    (ran : (afterMoves allowed moves).isSome) :
    ReachableBy (watchSystem θ) allowed ((afterMoves allowed moves).get ran) := by
  have begins : (watchSystem θ).init
      ⟨.construct 3 .initializing false (.initial (fun _ _ => 0) 256), ⟨true, true, false⟩, none⟩ :=
    ⟨3, .initializing, false, _, _, rfl, rfl⟩
  exact guarded_reachable (fun _ _ _ moved => moved) (.start begins) (Option.some_get ran).symm

end Threads

/-- `connect` gets EINPROGRESS, and succeeds in the event that comes. -/
def connectedLater : Watched Unit :=
  (afterMoves Gradual ([.call .connect, .loop (.connected .inProgress),
    .call (.event ⟨false, true, false⟩), .loop .returns, .loop (.connected .succeeded),
    .loop .returns, .loop .returns, .loop (.flushed ⟨.initial (fun _ _ => 0) 256, .fresh⟩),
    .loop .returns, .loop (.wrote [])] ++ List.replicate 3 (.loop .returns))).get
    (by decide +kernel)

theorem mask_never_stale_later : connectedLater.mask = ⟨true, false, true⟩ := by
  have current : Current connectedLater :=
    mask_never_stale (single_reachable (moves_reachable (by decide +kernel)))
      (by rintro _ _ ⟨rfl⟩; decide +kernel) () connectedLater rfl (by decide +kernel)
  have status : connectedLater.tcp.status = .connected := by decide +kernel
  have writeBusy : connectedLater.tcp.writeBusy = false := by decide +kernel
  rw [Current, status, writeBusy] at current
  exact (Option.some.inj current).symm

/-- `connect` succeeds at once, in the task that creates the instance. -/
def connectedAtOnce : Watched Unit :=
  (afterMoves (fun _ _ => True) [.call .connect, .loop (.connected .succeeded)]).get
    (by decide +kernel)

theorem mask_stale : Reachable (family (watchSystem Unit) Unit) (fun _ => some connectedAtOnce) ∧
    connectedAtOnce.tcp.todo = [] ∧ connectedAtOnce.tcp.status = .connected ∧
      ¬Current connectedAtOnce :=
  ⟨reachable_of_allowed (single_reachable (moves_reachable (by decide +kernel))), by decide +kernel,
    by decide +kernel, by decide +kernel⟩

end Npoller.InterestMask
