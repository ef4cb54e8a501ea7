import Mathlib.Data.Fintype.Basic
import Npoller.TcpRace

/-!
Whether closed is final. A setter keeps its `next_status` when its exchange fails,
and the stores of `reconnect` follow a system call; so a thread that is on its way
to write a live status writes it also after another one has closed the instance.
Where no instance is closed under such a thread, and no `connect(2)` succeeds on a
closed one, a final status stays final.
-/

namespace Npoller.TcpFinal

open TcpRace TcpSetters StepSystem

/-- Before an exchange or a store of a live status. -/
def Pending : ThreadPc → Prop
  | .exchanging _ _ next => ¬Final next
  | .storing status => ¬Final status
  | _ => False

instance (pc : ThreadPc) : Decidable (Pending pc) := by
  unfold Pending
  split <;> infer_instance

variable {θ : Type*}

/-- The next step of `t` closes or invalidates the instance. -/
def Ending (s : Instance θ) (t : θ) : Prop :=
  match s.threads t with
  | .exchanging _ current next => s.status = current ∧ Final next
  | .closing current => s.status = current
  | .storing status => Final status
  | _ => False

instance (s : Instance θ) (t : θ) : Decidable (Ending s t) := by
  unfold Ending
  split <;> infer_instance

/-- Nobody ends the instance while another thread is about to write a live status,
and no `connect(2)` that began before the end leads to such a write after it. -/
def Undisturbed (s : Instance θ) : Move θ → Prop
  | .advance t => Ending s t → ∀ u, u ≠ t → ¬Pending (s.threads u)
  | .connected t result => Final s.status →
      ∀ caller ∈ (match s.threads t with | .connecting caller => [caller] | _ => []),
        ¬Pending (afterConnect caller result)
  | .call _ _ | .destroy => True

instance [Fintype θ] [DecidableEq θ] (s : Instance θ) :
    (move : Move θ) → Decidable (Undisturbed s move)
  | .advance _ => inferInstanceAs (Decidable (_ → _))
  | .connected _ _ => inferInstanceAs (Decidable (_ → _))
  | .call _ _ | .destroy => inferInstanceAs (Decidable True)

/-- Once final nobody is about to revive the instance. -/
structure Settled (s : Instance θ) : Prop where
  final : s.ended = true → Final s.status
  quiet : Final s.status → ∀ t, ¬Pending (s.threads t)

variable [DecidableEq θ] {s after : Instance θ} {t : θ}

theorem enter_quiet (call : Call) {status : TcpStatus} (final : Final status) :
    ¬Pending (call.enter status) := by
  cases call with
  | set setter =>
      rw [Call.enter, apply_final setter final]
      exact not_not_intro final
  | close => exact id
  | reconnect | connect | shutdownWrite =>
      rcases final with rfl | rfl
      · exact id
      · exact id
  | markInvalid => exact not_not_intro (.inr rfl)

theorem set_thread_settled {closes : Nat} {pc : ThreadPc} (settled : Settled s)
    (quiet : Final s.status → ¬Pending pc) : Settled ({ s with closes }.setThread t pc) := by
  refine ⟨settled.final, ?_⟩
  intro final u
  by_cases same : u = t
  · subst same
    rw [set_thread_self]
    exact quiet final
  · rw [set_thread_other _ _ same]
    exact settled.quiet final u

theorem store_settled {status : TcpStatus} {pc : ThreadPc} (settled : Settled s)
    (revives : ¬Final status → Pending (s.threads t)) (quiet : ¬Pending pc)
    (alone : Final status → ∀ u, u ≠ t → ¬Pending (s.threads u)) :
    Settled ((s.store status).setThread t pc) := by
  constructor
  · intro ended
    change Final status
    by_contra live
    have before : ¬Final s.status := fun final => settled.quiet final t (revives live)
    have marked : (s.ended || decide (Final status)) = true := ended
    rw [decide_eq_false live, Bool.or_false] at marked
    exact before (settled.final marked)
  · intro final u
    by_cases same : u = t
    · subst same
      rw [set_thread_self]
      exact quiet
    · rw [set_thread_other _ _ same]
      exact alone final u same

theorem step_settled {move : Move θ} (settled : Settled s) (allowed : Undisturbed s move)
    (step : TcpStep s move after) : Settled after := by
  cases step with
  | call call _ _ => exact set_thread_settled settled (enter_quiet call)
  -- The exchange may end the instance, which the condition allows while no other
  -- thread is pending, or come from a live status, which is then not final yet.
  | exchanged pc same =>
      apply store_settled settled _ id
      · intro final
        exact allowed (by rw [Ending, pc]; exact ⟨same, final⟩)
      · intro live
        rw [pc]
        exact live
  | retried pc _ =>
      apply set_thread_settled settled
      intro final
      have quiet : ¬Pending _ := pc ▸ settled.quiet final _
      -- The switch has no case for a final status and keeps the value of the turn before.
      rw [next_final _ final]
      exact quiet
  | looked _ =>
      apply set_thread_settled settled
      intro final
      rw [if_pos final]
      exact id
  | closed pc =>
      apply store_settled settled _ id
      · exact fun _ => allowed (by rw [Ending, pc])
      · exact fun live => (live (.inl rfl)).elim
  | released _ => exact set_thread_settled settled (fun _ => id)
  | stored pc =>
      apply store_settled settled _ id
      · intro final
        exact allowed (by rw [Ending, pc]; exact final)
      · intro live
        rw [pc]
        exact live
  | connected result pc =>
      apply set_thread_settled settled
      intro final
      apply allowed final
      rw [pc]
      exact List.mem_cons_self
  | destroyed _ _ => exact ⟨settled.final, settled.quiet⟩

/-- In a run in which nobody ends the instance under a thread that is about to write
a live status, a status that has been closed or invalid is so for ever. -/
theorem closed_is_final (reached : ReachableBy (tcpSystem θ) Undisturbed s)
    (ended : s.ended = true) : Final s.status := by
  have settled : Settled s := by
    apply invariant _ _ reached
    · rintro state ⟨status, rfl⟩
      exact ⟨of_decide_eq_true, fun _ _ => id⟩
    · exact fun _ _ _ holds allowed moves => step_settled holds allowed (tcp_steps moves)
  exact settled.final ended

/-- A `close` whose exchange another thread's `set_readable(false)` precedes. -/
def closedLast : Instance Bool :=
  (afterMoves Undisturbed .connected [.call true .close, .advance true,
    .call false (.set (.readable false)), .advance false, .advance true, .advance true,
    .call false (.set (.readable true)), .advance false]).get (by decide +kernel)

theorem closed_is_final_last : Final closedLast.status :=
  closed_is_final (moves_reachable (by decide +kernel)) (by decide +kernel)

/-- One thread has computed `peer_shutdown_write`; the other one closes the descriptor;
the retry of the first puts `peer_shutdown_write` in place of `closed`. -/
def revived : Instance Bool :=
  (afterMoves (fun _ _ => True) .connected [.call false (.set (.readable false)),
    .call true .close, .advance true, .advance true, .advance true, .advance false,
    .advance false]).get (by decide +kernel)

theorem closed_revived : Reachable (tcpSystem Bool) revived ∧ revived.ended = true ∧
    revived.status = .peerShutdownWrite :=
  ⟨moves_reachable (by decide +kernel), by decide +kernel, by decide +kernel⟩

end Npoller.TcpFinal
