import Npoller.TcpRace

/-!
How often the descriptor is released. `io::close` clears `valid` before it calls
`::close`; `tcp::close` changes `__status` only, so `~io` finds `valid` set and
closes the descriptor again. An instance that its setters have closed is released
by the destructor alone.
-/

namespace Npoller.TcpRelease

open TcpRace TcpSetters StepSystem

variable {θ : Type*}

/-- No exchange of a `close` succeeds: it finds a final status, or loses to a call
that changes the status. -/
def NeverCloses (s : Instance θ) : Move θ → Prop
  | .advance t => s.threads t ≠ .closing s.status
  | _ => True

instance (s : Instance θ) : (move : Move θ) → Decidable (NeverCloses s move)
  | .advance _ => inferInstanceAs (Decidable (_ ≠ _))
  | .call _ _ | .connected _ _ | .destroy => inferInstanceAs (Decidable True)

/-- The calls of `::close` that `~io` has made. -/
def byDestructor (s : Instance θ) : Nat := if s.destroyed then 1 else 0

section Runs
variable [DecidableEq θ] {s after : Instance θ} {t : θ} {move : Move θ}

/-- After the end nobody is inside; and a close that has won its exchange is before
its `::close` or has added to the count. -/
structure Accounted (s : Instance θ) : Prop where
  valid : s.valid = true
  left : s.destroyed = true → ∀ t, s.threads t = .idle
  least : byDestructor s ≤ s.closes
  origin : (∃ t, s.threads t = .releasing) ∨ byDestructor s < s.closes ∨
    ReachableBy (tcpSystem θ) NeverCloses s

structure Unclosed (s : Instance θ) : Prop where
  valid : s.valid = true
  holder : ∀ t, s.threads t ≠ .releasing
  count : s.closes = byDestructor s

theorem inside_alive (accounted : Accounted s) (inside : s.threads t ≠ .idle) :
    s.destroyed = false := by
  apply eq_false_of_ne_true
  intro destroyed
  exact inside (accounted.left destroyed t)

theorem quiet_accounted {status : TcpStatus} {ended : Bool} {pc : ThreadPc}
    (accounted : Accounted s) (alive : s.destroyed = false) (away : s.threads t ≠ .releasing)
    (allowed : NeverCloses s move)
    (moves : (tcpSystem θ).step s move ({ s with status, ended }.setThread t pc)) :
    Accounted ({ s with status, ended }.setThread t pc) := by
  refine ⟨accounted.valid, ?_, accounted.least, ?_⟩
  · intro destroyed
    rw [show s.destroyed = true from destroyed] at alive
    cases alive
  · rcases accounted.origin with ⟨u, releasing⟩ | more | reached
    · left
      have other : u ≠ t := by
        rintro rfl
        exact away releasing
      exact ⟨u, (set_thread_other _ _ other).trans releasing⟩
    · exact .inr (.inl more)
    · exact .inr (.inr (.next reached allowed moves))

theorem step_accounted (accounted : Accounted s) (moves : (tcpSystem θ).step s move after) :
    Accounted after := by
  cases tcp_steps moves with
  | call call alive pc =>
      exact quiet_accounted accounted alive (by rw [pc]; exact nofun) (by trivial) moves
  | exchanged pc _ | retried pc _ | stored pc =>
      apply quiet_accounted accounted _ _ _ moves
      · exact inside_alive accounted (by rw [pc]; exact nofun)
      · rw [pc]
        exact nofun
      · rw [NeverCloses, pc]
        exact nofun
  | connected _ pc =>
      apply quiet_accounted accounted _ _ (by trivial) moves
      · exact inside_alive accounted (by rw [pc]; exact nofun)
      · rw [pc]
        exact nofun
  | looked pc =>
      -- the load of a close, and an exchange that failed: both leave the count alone
      apply quiet_accounted accounted _ _ _ moves
      · rcases pc with pc | ⟨current, pc, _⟩
        · exact inside_alive accounted (by rw [pc]; exact nofun)
        · exact inside_alive accounted (by rw [pc]; exact nofun)
      · rcases pc with pc | ⟨current, pc, _⟩
        · rw [pc]
          exact nofun
        · rw [pc]
          exact nofun
      · rcases pc with pc | ⟨current, pc, changed⟩
        · rw [NeverCloses, pc]
          exact nofun
        · rw [NeverCloses, pc]
          intro same
          cases same
          exact changed rfl
  | closed pc =>
      have alive := inside_alive accounted (by rw [pc]; exact nofun)
      refine ⟨accounted.valid, ?_, accounted.least, .inl ⟨_, set_thread_self ..⟩⟩
      intro destroyed
      rw [show s.destroyed = true from destroyed] at alive
      cases alive
  | released pc =>
      have alive := inside_alive accounted (by rw [pc]; exact nofun)
      refine ⟨accounted.valid, ?_, Nat.le_succ_of_le accounted.least,
        .inr (.inl (Nat.lt_succ_of_le accounted.least))⟩
      intro destroyed
      rw [show s.destroyed = true from destroyed] at alive
      cases alive
  | destroyed idle alive =>
      have none_ : byDestructor s = 0 := if_neg (by rw [alive]; exact Bool.false_ne_true)
      have sum : s.closes + (if s.valid then 1 else 0) = s.closes + 1 := by
        rw [if_pos accounted.valid]
      refine ⟨accounted.valid, fun _ => idle, ?_, ?_⟩
      · change 1 ≤ _
        rw [sum]
        exact Nat.le_add_left 1 _
      · rcases accounted.origin with ⟨u, releasing⟩ | more | reached
        · rw [idle u] at releasing
          cases releasing
        · refine .inr (.inl ?_)
          change 1 < _
          rw [sum]
          exact Nat.succ_lt_succ (none_ ▸ more)
        · exact .inr (.inr (.next reached (by trivial) moves))

theorem quiet_unclosed {status : TcpStatus} {ended : Bool} {pc : ThreadPc}
    (unclosed : Unclosed s) (away : pc ≠ .releasing) :
    Unclosed ({ s with status, ended }.setThread t pc) := by
  refine ⟨unclosed.valid, ?_, unclosed.count⟩
  intro u
  by_cases same : u = t
  · subst same
    rw [set_thread_self]
    exact away
  · rw [set_thread_other _ _ same]
    exact unclosed.holder u

theorem enter_away (call : Call) (status : TcpStatus) : call.enter status ≠ .releasing := by
  cases call <;> simp only [Call.enter] <;> (try split) <;> exact nofun

theorem after_connect_away (caller : Caller) (result : ConnectResult) :
    afterConnect caller result ≠ .releasing := by
  cases result <;> cases caller <;> simp only [afterConnect] <;> (try split) <;> exact nofun

theorem step_unclosed (unclosed : Unclosed s) (allowed : NeverCloses s move)
    (step : TcpStep s move after) : Unclosed after := by
  cases step with
  | call call _ _ => exact quiet_unclosed unclosed (enter_away call s.status)
  | exchanged _ _ | retried _ _ | stored _ => exact quiet_unclosed unclosed nofun
  | looked _ =>
      apply quiet_unclosed unclosed
      split
      · exact nofun
      · exact nofun
  | closed pc => exact absurd pc allowed
  | released pc => exact absurd pc (unclosed.holder _)
  | connected result _ => exact quiet_unclosed unclosed (after_connect_away _ result)
  | destroyed _ alive =>
      refine ⟨unclosed.valid, unclosed.holder, ?_⟩
      have none_ : byDestructor s = 0 := if_neg (by rw [alive]; exact Bool.false_ne_true)
      change s.closes + (if s.valid then 1 else 0) = 1
      rw [unclosed.count, none_, if_pos unclosed.valid]

/-- At the end of its life the descriptor has been released exactly once if and only
if the instance can have got there without a `close` whose exchange succeeds. -/
theorem released_once (reached : Reachable (tcpSystem θ) s) (destroyed : s.destroyed = true) :
    s.closes = 1 ↔ ReachableBy (tcpSystem θ) NeverCloses s := by
  have accounted : Accounted s := by
    apply invariant _ _ reached
    · rintro state ⟨status, rfl⟩
      exact ⟨rfl, nofun, Nat.le_refl 0, .inr (.inr (.start ⟨status, rfl⟩))⟩
    · exact fun _ _ _ holds _ moves => step_accounted holds moves
  have once : byDestructor s = 1 := if_pos destroyed
  constructor
  · intro count
    rcases accounted.origin with ⟨t, releasing⟩ | more | quiet
    · rw [accounted.left destroyed t] at releasing
      cases releasing
    · rw [once, count] at more
      exact absurd more (Nat.lt_irrefl 1)
    · exact quiet
  · intro quiet
    have unclosed : Unclosed s := by
      apply invariant _ _ quiet
      · rintro state ⟨status, rfl⟩
        exact ⟨rfl, nofun, rfl⟩
      · exact fun _ _ _ holds allowed moves => step_unclosed holds allowed (tcp_steps moves)
    rw [unclosed.count, once]

end Runs

def destroy (s : Instance Unit) : Instance Unit :=
  { s with destroyed := true, closes := s.closes + if s.valid then 1 else 0 }

theorem destroy_step {s : Instance Unit} (idle : ∀ t, s.threads t = .idle)
    (alive : s.destroyed = false) : (tcpSystem Unit).step s .destroy (destroy s) :=
  .inr ⟨rfl, idle, alive, rfl⟩

def shutDown : Instance Unit :=
  (afterMoves NeverCloses .connected [.call () (.set (.writable false)), .advance (),
    .call () (.set (.readable false)), .advance (), .call () .close, .advance ()]).get
    (by decide +kernel)

theorem shut_down_reached : ReachableBy (tcpSystem Unit) NeverCloses (destroy shutDown) :=
  .next (moves_reachable (by decide +kernel)) (by trivial)
    (destroy_step (fun () => by decide +kernel) (by decide +kernel))

theorem released_once_shut_down :
    (destroy shutDown).closes = 1 ↔ ReachableBy (tcpSystem Unit) NeverCloses (destroy shutDown) :=
  released_once (reachable_of_allowed shut_down_reached) rfl

def closedFirst : Instance Unit :=
  (afterMoves (fun _ _ => True) .connected
    [.call () .close, .advance (), .advance (), .advance ()]).get (by decide +kernel)

theorem released_twice : Reachable (tcpSystem Unit) (destroy closedFirst) ∧
    (destroy closedFirst).destroyed = true ∧ (destroy closedFirst).closes = 2 :=
  ⟨reachable_next (moves_reachable (by decide +kernel))
    (destroy_step (fun () => by decide +kernel) (by decide +kernel)), rfl, by decide +kernel⟩

end Npoller.TcpRelease
