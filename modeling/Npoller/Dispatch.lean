import Npoller.IoMap

/-!
The batch of events that one `epoll_wait` of `event_processor::process` returns. The
loop looks each event's `io` up by its descriptor when the event's turn comes;
between two turns the callbacks apply any operations, on instances that may have a
descriptor that was closed since.
-/

namespace Npoller.Dispatch

open StepSystem TcpSetters IoMap

variable {π ι : Type*} [DecidableEq π] [DecidableEq ι]

/-- A call of `process_event`, with the instance that had the descriptor when
`epoll_wait` returned. -/
structure EventCall (ι : Type*) where
  fd : Int
  io : ι
  registered : Option ι

structure Loop (π ι : Type*) where
  processors : Processors π ι
  self : π
  pipeFd : Int
  waited : Int → Option ι
  batch : List Int
  calls : List (EventCall ι)

inductive Move (π ι : Type*) where
  | wait (events : List Int)
  | next
  | op (op : Op π ι)

def run (s : Loop π ι) : Move π ι → Option (Loop π ι)
  | .wait events =>
      if s.batch = [] then some { s with waited := s.processors.ioMap s.self, batch := events }
      else none
  | .next =>
      match s.batch with
      | [] => none
      | fd :: rest =>
          if fd = s.pipeFd then some { s with batch := rest }
          else match s.processors.ioMap s.self fd with
            | none => some { s with batch := rest }
            | some io =>
                some { s with batch := rest, calls := s.calls ++ [⟨fd, io, s.waited fd⟩] }
  | .op which => some { s with processors := which.run s.processors }

def dispatchSystem (π ι : Type*) [DecidableEq π] [DecidableEq ι] : System (Loop π ι) (Move π ι) where
  init s := (∀ p fd, s.processors.ioMap p fd = none) ∧ s.batch = [] ∧ s.calls = []
  step before move after := run before move = some after

/-- `add_io` gets to the insertion. -/
def Registers (s : Processors π ι) (p : π) (x : ι) : Op π ι → Prop
  | .addIo q y running first second => q = p ∧ y = x ∧ s.admits p x running = true ∧
      s.ioMap p (s.ios x).fd = none ∧ (s.epollCtlAdd x first second).1 = some .ok
  | _ => False

/-- No other instance is registered under a descriptor that has an event to come. One that
is taken out again before the event's turn does no harm, and is excluded for simplicity. -/
def NoReuse (s : Loop π ι) : Move π ι → Prop
  | .op which => ∀ x, Registers s.processors s.self x which →
      (s.processors.ios x).fd ∈ s.batch → s.waited (s.processors.ios x).fd = some x
  | _ => True

variable {s after : Loop π ι} {w : Processors π ι} {p q : π} {x y : ι} {e : Int}

section Maps

def Shrinks (before after : Processors π ι) : Prop :=
  ∀ q e y, after.ioMap q e = some y → before.ioMap q e = some y

omit [DecidableEq π] [DecidableEq ι] in
theorem shrinks_refl : Shrinks w w := fun _ _ _ listed => listed

omit [DecidableEq π] in
theorem set_io_shrinks (io : Io π) : Shrinks w (w.setIo x io) := fun _ _ _ listed => listed

omit [DecidableEq ι] in
theorem remove_io_shrinks (fd : Int) (deleted : Bool) : Shrinks w (w.removeIo p fd deleted).2 := by
  intro q e y listed
  rw [remove_io_map] at listed
  split at listed
  · cases listed
  · exact listed

theorem update_manager_shrinks (manager : Option π) : Shrinks w (w.updateManager x manager) := by
  unfold Processors.updateManager
  dsimp only
  split
  · exact remove_io_shrinks _ _
  · exact set_io_shrinks _

theorem mark_invalid_shrinks : Shrinks w (w.markInvalid x) := by
  unfold Processors.markInvalid
  split
  · exact update_manager_shrinks none
  · exact set_io_shrinks _

theorem leave_manager_shrinks : Shrinks w (w.leaveManager x) := by
  unfold Processors.leaveManager
  split
  · exact remove_io_shrinks _ _
  · exact shrinks_refl

theorem close_shrinks : Shrinks w (w.close x) := by
  unfold Processors.close
  split
  · split
    · exact set_io_shrinks _
    · exact shrinks_refl
  · dsimp only
    split
    · exact leave_manager_shrinks
    · exact leave_manager_shrinks

theorem get_event_shrinks : Shrinks w (w.getEvent x).2 := by
  unfold Processors.getEvent
  split
  · exact shrinks_refl
  · split
    · exact shrinks_refl
    · exact close_shrinks
    · exact set_io_shrinks _
    · exact shrinks_refl

theorem epoll_ctl_shrinks (first second : CtlResult) :
    Shrinks w (w.epollCtlAdd x first second).2 := by
  have shrinks := get_event_shrinks (w := w) (x := x)
  unfold Processors.epollCtlAdd
  cases got : w.getEvent x with
  | mk true_ next =>
      rw [got] at shrinks
      cases true_ with
      | false => exact shrinks
      | true =>
          dsimp only
          split
          -- EINVAL with EPOLLRDHUP: the retry asks `get_event` again.
          · have again := get_event_shrinks (x := x)
              (w := next.setIo x { next.ios x with supportEpollrdhup := false })
            split
            · rename_i gotAgain
              rw [gotAgain] at again
              exact fun q e y listed => shrinks q e y (again q e y listed)
            · rename_i gotAgain
              rw [gotAgain] at again
              exact fun q e y listed => shrinks q e y (again q e y listed)
          · exact shrinks

theorem new_entry_registered {which : Op π ι} (listed : (which.run w).ioMap q e = some y)
    (new : w.ioMap q e ≠ some y) : Registers w q y which ∧ e = (w.ios y).fd := by
  cases which with
  | removeIo p fd deleted => exact absurd (remove_io_shrinks fd deleted q e y listed) new
  | close x => exact absurd (close_shrinks q e y listed) new
  | markInvalid x => exact absurd (mark_invalid_shrinks q e y listed) new
  | addIo p x running first second =>
      simp only [Op.run, Processors.addIo] at listed
      split at listed
      · exact absurd listed new
      · rename_i admitted
        rw [Bool.not_eq_false] at admitted
        split at listed
        · exact absurd listed new
        · rename_i absent
          rw [Option.not_isSome_iff_eq_none] at absent
          have shrinks := epoll_ctl_shrinks (w := w) (x := x) first second
          split at listed
          · rename_i missed
            rw [missed] at shrinks
            exact absurd (shrinks q e y listed) new
          · rename_i result _ reached
            obtain ⟨flag, rfl, _⟩ := epoll_ctl_reached (admits_valid admitted) reached
            cases result with
            | ok =>
                have inserted := update_manager_shrinks (some p) q e y listed
                simp only [set_io_self] at inserted
                split at inserted
                · rename_i here
                  cases inserted
                  obtain ⟨rfl, rfl, _⟩ := here
                  exact ⟨⟨rfl, rfl, admitted, absent, by rw [reached]⟩, rfl⟩
                · exact absurd inserted new
            | ebadf => exact absurd (mark_invalid_shrinks q e y listed) new
            | einval | eexist | eperm | failed => exact absurd listed new

end Maps

section Runs

structure Fresh (s : Loop π ι) : Prop where
  entries : ∀ fd ∈ s.batch, ∀ x, s.processors.ioMap s.self fd = some x → s.waited fd = some x
  calls : ∀ call ∈ s.calls, call.registered = some call.io

theorem fresh_step {move : Move π ι} (fresh : Fresh s) (meets : NoReuse s move)
    (moved : run s move = some after) : Fresh after := by
  cases move with
  | wait events =>
      simp only [run] at moved
      split at moved
      · cases moved
        exact ⟨fun _ _ _ listed => listed, fresh.calls⟩
      · cases moved
  | next =>
      simp only [run] at moved
      split at moved
      · cases moved
      · rename_i fd rest batch
        have entries := fresh.entries
        rw [batch] at entries
        have later : ∀ other ∈ rest, ∀ x, s.processors.ioMap s.self other = some x →
            s.waited other = some x :=
          fun other member => entries other (List.mem_cons_of_mem _ member)
        split at moved
        · cases moved
          exact ⟨later, fresh.calls⟩
        · split at moved
          · cases moved
            exact ⟨later, fresh.calls⟩
          · rename_i io found
            cases moved
            refine ⟨later, ?_⟩
            intro call member
            rcases List.mem_append.mp member with earlier | last
            · exact fresh.calls call earlier
            · rw [List.mem_singleton.mp last]
              exact entries fd (List.mem_cons_self ..) io found
  | op which =>
      cases moved
      refine ⟨?_, fresh.calls⟩
      intro fd member x listed
      by_cases old : s.processors.ioMap s.self fd = some x
      · exact fresh.entries fd member x old
      · obtain ⟨registers, rfl⟩ := new_entry_registered listed old
        exact meets x registers member

/-- In every run in which no descriptor with an event to come is given to another
instance, `process_event` is called only on the instance that an event was reported
for. -/
theorem events_reach_registered (reached : ReachableBy (dispatchSystem π ι) NoReuse s) :
    ∀ call ∈ s.calls, call.registered = some call.io := by
  have starts : ∀ state, (dispatchSystem π ι).init state → Fresh state := by
    rintro state ⟨_, batch, calls⟩
    refine ⟨?_, ?_⟩
    · rw [batch]
      nofun
    · rw [calls]
      nofun
  have fresh : Fresh s := by
    apply invariant starts _ reached
    intro before move after fresh meets moved
    exact fresh_step fresh meets moved
  exact fresh.calls

/-- Three connections; two of them have the descriptor 7, one after the other. -/
def connection (fd : Int) : Io Unit := ⟨.tcp, fd, true, true, true, .connected, true, none⟩

def idle : Loop Unit (Option Bool) :=
  { processors :=
      ⟨fun _ => 3, fun _ _ => none, fun x => if x = none then connection 8 else connection 7⟩
    self := ()
    pipeFd := 4
    waited := fun _ => none
    batch := []
    calls := [] }

def afterMoves (moves : List (Move Unit (Option Bool))) : Option (Loop Unit (Option Bool)) :=
  moves.foldlM run idle

theorem idle_init : (dispatchSystem Unit (Option Bool)).init idle := ⟨fun _ _ => rfl, rfl, rfl⟩

def register (x : Option Bool) : Move Unit (Option Bool) := .op (.addIo () x true .ok .ok)

/-- The callback of the first event closes the connection of the second one and
registers the one that got its descriptor. -/
def reuse : List (Move Unit (Option Bool)) :=
  [register none, register (some false), .wait [8, 7], .next, .op (.close (some false)),
    register (some true), .next]

theorem reuse_runs : (afterMoves reuse).isSome := by decide

theorem event_reaches_other : ¬∀ s : Loop Unit (Option Bool),
    Reachable (dispatchSystem Unit (Option Bool)) s →
      ∀ call ∈ s.calls, call.registered = some call.io := by
  intro right
  have reached : Reachable (dispatchSystem Unit (Option Bool)) ((afterMoves reuse).get reuse_runs) :=
    fold_reachable (fun _ _ _ moved => ⟨trivial, moved⟩) (.start idle_init) (Option.some_get _).symm
  have wrong := right _ reached ⟨7, some true, some (some false)⟩ (by
    rw [show ((afterMoves reuse).get reuse_runs).calls =
      [⟨8, none, some none⟩, ⟨7, some true, some (some false)⟩] from rfl]
    exact List.mem_cons_of_mem _ (List.mem_cons_self ..))
  cases wrong

def registered : Loop Unit (Option Bool) :=
  { idle with processors := Op.run idle.processors (.addIo () none true .ok .ok) }

def waited : Loop Unit (Option Bool) :=
  { registered with waited := registered.processors.ioMap (), batch := [8] }

def dispatched : Loop Unit (Option Bool) :=
  { waited with batch := [], calls := [⟨8, none, some none⟩] }

theorem events_reach_registered_sample : dispatched.calls ≠ [] ∧
    ∀ call ∈ dispatched.calls, call.registered = some call.io :=
  have adds : NoReuse idle (register none) := fun _ _ => nofun
  have waits : NoReuse registered (.wait [8]) := trivial
  have takes : NoReuse waited .next := trivial
  have first : (dispatchSystem Unit (Option Bool)).step idle (register none) registered := rfl
  have second : (dispatchSystem Unit (Option Bool)).step registered (.wait [8]) waited := rfl
  have third : (dispatchSystem Unit (Option Bool)).step waited .next dispatched := rfl
  ⟨List.cons_ne_nil _ _, events_reach_registered
    (.next (.next (.next (.start idle_init) adds first) waits second) takes third)⟩

end Runs

end Npoller.Dispatch
