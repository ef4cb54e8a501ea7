import Npoller.TcpLoop

/-!
What one instruction of the loop thread does to the status of its instance and to
the instructions that follow: the status by the instruction that may change it; the
instructions of `close` and of callbacks, which start no other part of an event; and
how the instructions of an event or an instant write end.
-/

namespace Npoller.TcpChanges

open DirectIo IoBuffer IoWrite StepSystem TcpLoop TcpRace TcpSetters

variable {θ : Type*} {s after : Tcp θ} {rest : List Instr} {instr : Instr} {input : Input}

inductive StatusStep (s : Tcp θ) (instr : Instr) : TcpStatus → Prop where
  | kept : StatusStep s instr s.status
  | connects {status : TcpStatus}
      (before : instr = .connect ∧ s.status = .initializing ∨
        instr = .reconnect ∧ s.status = .connecting)
      (goes : status = .connected ∨ status = .connecting) : StatusStep s instr status
  | unknown (at_ : instr = .reconnect) (before : s.status = .connecting) :
      StatusStep s instr .closed
  | read (exit : Exit) (at_ : instr = .directRead) (before : Readable s.status) :
      StatusStep s instr (readEnded s.status exit)
  | set (setter : Setter) (at_ : instr = .set setter) : StatusStep s instr (setter.apply s.status)
  | wrote (exit : Exit) (at_ : instr = .directWrite) (before : Writable s.status) :
      StatusStep s instr (writeEnded s.status exit)
  | closed (at_ : instr = .closeStatus) (open_ : ¬Final s.status) : StatusStep s instr .closed

theorem connect_result_status {first : Bool} {result : ConnectResult}
    (before : instr = .connect ∧ s.status = .initializing ∧ first = true ∨
      instr = .reconnect ∧ s.status = .connecting ∧ first = false) :
    StatusStep s instr (s.connectResult first rest result).status := by
  have connects : instr = .connect ∧ s.status = .initializing ∨
      instr = .reconnect ∧ s.status = .connecting := by
    rcases before with ⟨at_, status, _⟩ | ⟨at_, status, _⟩
    · exact Or.inl ⟨at_, status⟩
    · exact Or.inr ⟨at_, status⟩
  cases result with
  | succeeded | isConnected => exact .connects connects (Or.inl rfl)
  | inProgress => exact .connects connects (Or.inr rfl)
  | interrupted => cases first <;> exact .kept
  | refused => exact .kept
  | unknown =>
      rcases before with ⟨_, _, rfl⟩ | ⟨at_, status, rfl⟩
      · exact .kept
      · exact .unknown at_ status

theorem status_step (moves : s.run rest instr input = some after) :
    StatusStep s instr after.status := by
  cases instr with
  | connect =>
      cases input with
      | connected result =>
          cases moves
          split
          · rename_i status
            exact connect_result_status (Or.inl ⟨rfl, status, rfl⟩)
          · exact .kept
      | _ => cases moves
  | reconnect =>
      cases input with
      | connected result =>
          cases moves
          split
          · rename_i status
            exact connect_result_status (Or.inr ⟨rfl, status, rfl⟩)
          · exact .kept
      | _ => cases moves
  | directRead =>
      cases input with
      | read exit =>
          cases moves
          dsimp only
          split
          · rename_i readable
            exact .read exit rfl readable
          · exact .kept
      | _ => cases moves
  | set setter =>
      cases moves
      exact .set setter rfl
  | directWrite =>
      cases input with
      | wrote results =>
          simp only [Tcp.run] at moves
          split at moves
          · rename_i writable
            split at moves
            · rename_i done _
              cases moves
              exact .wrote done.exit rfl writable
            · cases moves
          · cases moves
            exact .kept
      | _ => cases moves
  | closeStatus =>
      cases moves
      dsimp only
      split
      · exact .kept
      · rename_i open_
        exact .closed rfl open_
  | dispatch | afterReconnect | clearHandler | checkReadable | writeStage | eraseFront
  | finishEvent | getEvent | clearTemp | close | dropManager =>
      cases moves
      exact .kept
  | processWrite =>
      simp only [Tcp.run] at moves
      split at moves
      · cases moves
        exact .kept
      · split at moves <;> cases moves <;> exact .kept
  | cleanWrite =>
      simp only [Tcp.run] at moves
      split at moves <;> cases moves <;> exact .kept
  | writeFlush =>
      cases input with
      | flushed writeBuffer =>
          simp only [Tcp.run] at moves
          split at moves <;> cases moves <;> exact .kept
      | _ => cases moves
  | processRead | readLoop =>
      cases input with
      | processed result =>
          simp only [Tcp.run] at moves
          split at moves
          · cases moves
            exact .kept
          · split at moves <;> cases moves <;> exact .kept
      | _ => cases moves
  | callback =>
      cases input with
      | returns | closes =>
          cases moves
          exact .kept
      | _ => cases moves

theorem final_step (final : Final s.status) (moves : s.run rest instr input = some after) :
    Final after.status := by
  have open_ : ∀ status : TcpStatus, status ≠ .closed → status ≠ .invalid → s.status ≠ status := by
    rintro status shut invalid rfl
    exact final.elim shut invalid
  have step := status_step moves
  generalize after.status = status at step
  cases step with
  | kept => exact final
  | connects before _ =>
      rcases before with ⟨_, status⟩ | ⟨_, status⟩
      · exact absurd status (open_ _ nofun nofun)
      · exact absurd status (open_ _ nofun nofun)
  | unknown => exact Or.inl rfl
  | read _ _ before =>
      rcases before with status | status
      · exact absurd status (open_ _ nofun nofun)
      · exact absurd status (open_ _ nofun nofun)
  | set setter =>
      rw [apply_final setter final]
      exact final
  | wrote _ _ before =>
      rcases before with status | status
      · exact absurd status (open_ _ nofun nofun)
      · exact absurd status (open_ _ nofun nofun)
  | closed => exact Or.inl rfl

/-- The connection has been established or given up. -/
def Settled (status : TcpStatus) : Prop := status ≠ .initializing ∧ status ≠ .connecting

theorem connected_settled : Settled .connected := ⟨by decide, by decide⟩

theorem closed_settled : Settled .closed := ⟨by decide, by decide⟩

theorem invalid_settled : Settled .invalid := ⟨by decide, by decide⟩

theorem apply_settled (setter : Setter) {status : TcpStatus} (settled : Settled status) :
    Settled (setter.apply status) := by
  obtain ⟨first, second⟩ := settled
  cases status with
  | initializing => exact absurd rfl first
  | connecting => exact absurd rfl second
  | connected | peerShutdownWrite | shutdownWrite | closed | invalid =>
      rcases setter with flag | flag <;> cases flag <;> constructor <;> nofun

theorem settled_step (settled : Settled s.status) (moves : s.run rest instr input = some after) :
    Settled after.status := by
  have step := status_step moves
  generalize after.status = status at step
  cases step with
  | kept => exact settled
  | connects before _ =>
      rcases before with ⟨_, status⟩ | ⟨_, status⟩
      · exact absurd status settled.1
      · exact absurd status settled.2
  | unknown | closed => exact closed_settled
  | read exit =>
      cases exit with
      | eof => exact apply_settled _ settled
      | badFd => exact invalid_settled
      | again | interrupted | invalid | brokenPipe | drained | failed => exact settled
  | set setter => exact apply_settled setter settled
  | wrote exit =>
      cases exit with
      | invalid | brokenPipe => exact apply_settled _ settled
      | badFd => exact invalid_settled
      | again | interrupted | eof | drained | failed => exact settled

theorem run_pushes (at_ : s.todo = instr :: rest) (step : LoopStep s input after) :
    ∃ next, after.todo = next ++ rest := by
  cases step with
  | goes here _ _ _ _ | connected here _ | staged here | wrote here _ _ =>
      obtain ⟨_, rfl⟩ := List.cons.inj (at_.symm.trans here)
      exact ⟨_, rfl⟩
  | flushed here _ =>
      obtain ⟨_, rfl⟩ := List.cons.inj (at_.symm.trans here)
      exact ⟨[.writeFlush], rfl⟩
  | completed here _ =>
      obtain ⟨_, rfl⟩ := List.cons.inj (at_.symm.trans here)
      exact ⟨[.callback, .eraseFront, .processWrite], rfl⟩
  | unparked here _ =>
      obtain ⟨_, rfl⟩ := List.cons.inj (at_.symm.trans here)
      exact ⟨[.readLoop], rfl⟩
  | doneParked here _ =>
      obtain ⟨_, rfl⟩ := List.cons.inj (at_.symm.trans here)
      exact ⟨[.callback, .clearTemp, .readLoop], rfl⟩
  | doneRead here _ =>
      obtain ⟨_, rfl⟩ := List.cons.inj (at_.symm.trans here)
      exact ⟨[.callback, .readLoop], rfl⟩
  | closes here =>
      obtain ⟨_, rfl⟩ := List.cons.inj (at_.symm.trans here)
      exact ⟨[.processRead, .cleanWrite, .dropManager, .closeStatus], rfl⟩
  | failed here _ =>
      obtain ⟨_, rfl⟩ := List.cons.inj (at_.symm.trans here)
      exact ⟨[.callback, .cleanWrite], rfl⟩
  | erased here | leftParked here _ | readAll here _ | parks here _ | cleared here | cleaned here _
  | returned here =>
      obtain ⟨_, rfl⟩ := List.cons.inj (at_.symm.trans here)
      exact ⟨[], rfl⟩

/-- The instructions of callbacks and of `close`. -/
def Instr.Closing : Instr → Prop
  | .callback | .clearHandler | .close | .processRead | .readLoop | .clearTemp | .cleanWrite
  | .dropManager | .closeStatus => True
  | _ => False

/-- What such an instruction leaves: instructions of the same kind on the stack, and
the status and the flags as they are, unless it is the last one of a `close`. -/
structure ClosingStep (s : Tcp θ) (rest : List Instr) (instr : Instr) (after : Tcp θ) : Prop where
  pushes : ∃ next, after.todo = next ++ rest ∧ ∀ pushed ∈ next, Instr.Closing pushed
  status : after.status = s.status ∨ instr = .closeStatus ∧ after.status = .closed
  writeBusy : after.writeBusy = s.writeBusy
  readyToWrite : after.readyToWrite = s.readyToWrite
  threads : after.threads = s.threads

theorem closing_step (closing : Instr.Closing instr) (moves : s.run rest instr input = some after) :
    ClosingStep s rest instr after := by
  have none_ : ∀ pushed ∈ ([] : List Instr), Instr.Closing pushed := List.forall_mem_nil _
  cases instr with
  | callback =>
      cases input with
      | returns =>
          cases moves
          exact ⟨⟨[], rfl, none_⟩, .inl rfl, rfl, rfl, rfl⟩
      | closes =>
          cases moves
          refine ⟨⟨[.close, .callback], rfl, ?_⟩, .inl rfl, rfl, rfl, rfl⟩
          simp [Instr.Closing]
      | _ => cases moves
  | clearHandler | clearTemp | dropManager =>
      cases moves
      exact ⟨⟨[], rfl, none_⟩, .inl rfl, rfl, rfl, rfl⟩
  | close =>
      cases moves
      refine ⟨⟨[.processRead, .cleanWrite, .dropManager, .closeStatus], rfl, ?_⟩, .inl rfl,
        rfl, rfl, rfl⟩
      simp [Instr.Closing]
  | closeStatus =>
      cases moves
      refine ⟨⟨[], rfl, none_⟩, ?_, rfl, rfl, rfl⟩
      dsimp only
      split
      · exact .inl rfl
      · exact .inr ⟨rfl, rfl⟩
  | cleanWrite =>
      simp only [Tcp.run] at moves
      split at moves
      · cases moves
        exact ⟨⟨[], rfl, none_⟩, .inl rfl, rfl, rfl, rfl⟩
      · cases moves
        refine ⟨⟨[.callback, .cleanWrite], rfl, ?_⟩, .inl rfl, rfl, rfl, rfl⟩
        simp [Instr.Closing]
  | processRead =>
      cases input with
      | processed result =>
          simp only [Tcp.run] at moves
          split at moves
          · cases moves
            refine ⟨⟨[.readLoop], rfl, ?_⟩, .inl rfl, rfl, rfl, rfl⟩
            simp [Instr.Closing]
          · split at moves
            · cases moves
              refine ⟨⟨[.callback, .clearTemp, .readLoop], rfl, ?_⟩, .inl rfl, rfl, rfl, rfl⟩
              simp [Instr.Closing]
            · cases moves
              exact ⟨⟨[], rfl, none_⟩, .inl rfl, rfl, rfl, rfl⟩
      | _ => cases moves
  | readLoop =>
      cases input with
      | processed result =>
          simp only [Tcp.run] at moves
          split at moves
          · cases moves
            exact ⟨⟨[], rfl, none_⟩, .inl rfl, rfl, rfl, rfl⟩
          · split at moves
            · cases moves
              refine ⟨⟨[.callback, .readLoop], rfl, ?_⟩, .inl rfl, rfl, rfl, rfl⟩
              simp [Instr.Closing]
            · cases moves
              exact ⟨⟨[], rfl, none_⟩, .inl rfl, rfl, rfl, rfl⟩
      | _ => cases moves
  | dispatch | afterReconnect | connect | reconnect | directRead | checkReadable | set | writeFlush
  | writeStage | directWrite | processWrite | eraseFront | finishEvent | getEvent => cases closing

theorem close_pushes (moves : s.run rest .close input = some after) :
    after.todo = [.processRead, .cleanWrite, .dropManager, .closeStatus] ++ rest := by
  cases moves
  rfl

theorem close_ends (moves : s.run rest .closeStatus input = some after) : Final after.status := by
  cases moves
  dsimp only
  split
  · assumption
  · exact .inl rfl

structure Closes (todo below : List Instr) : Prop where
  stack : ∃ upper, todo = upper ++ below ∧ (∀ instr ∈ upper, Instr.Closing instr) ∧
    (.close ∈ upper ∨ .closeStatus ∈ upper)

theorem closes_busy {todo below : List Instr} (closes : Closes todo below) :
    todo ≠ [] ∧ todo ≠ below := by
  obtain ⟨upper, rfl, _, due⟩ := closes.stack
  have some_ : upper ≠ [] := by
    rintro rfl
    rcases due with none_ | none_ <;> cases none_
  refine ⟨?_, ?_⟩
  · exact List.append_ne_nil_of_left_ne_nil some_ below
  · intro same
    have lengths := congrArg List.length same
    rw [List.length_append] at lengths
    exact some_ (List.eq_nil_of_length_eq_zero (by omega))

theorem closes_step {below : List Instr} (closes : Closes s.todo below)
    (at_ : s.todo = instr :: rest) (moves : s.run rest instr input = some after) :
    Instr.Closing instr ∧
    (∃ upper, after.todo = upper ++ below ∧ ∀ other ∈ upper, Instr.Closing other) ∧
    (after.status = s.status ∧ Closes after.todo below ∨
      Final after.status ∧ (after.status = s.status ∨ after.status = .closed)) := by
  obtain ⟨upper, stack, closing, due⟩ := closes.stack
  rw [at_] at stack
  cases upper with
  | nil => rcases due with none_ | none_ <;> cases none_
  | cons first upper =>
      rw [List.cons_append] at stack
      obtain ⟨rfl, rfl⟩ := List.cons.inj stack
      obtain ⟨here, others⟩ := List.forall_mem_cons.mp closing
      obtain ⟨⟨next, todo, pushed⟩, kept, _, _, _⟩ := closing_step here moves
      have all : ∀ other ∈ next ++ upper, Instr.Closing other :=
        List.forall_mem_append.mpr ⟨pushed, others⟩
      have closeEnds : instr = .close → .closeStatus ∈ next := by
        rintro rfl
        rw [close_pushes moves] at todo
        rw [← List.append_cancel_right todo]
        simp
      rw [← List.append_assoc] at todo
      refine ⟨here, ⟨next ++ upper, todo, all⟩, ?_⟩
      by_cases last : instr = .closeStatus
      -- Every other instruction leaves the last one of the `close` below it, or puts it there.
      · subst last
        exact .inr ⟨close_ends moves, kept.imp_right (fun shut => shut.2)⟩
      · refine .inl ⟨kept.resolve_right (fun shut => last shut.1), ⟨next ++ upper, todo, all, ?_⟩⟩
        rcases due with close | closeStatus
        · rcases List.mem_cons.mp close with rfl | later
          · exact .inr (List.mem_append_left _ (closeEnds rfl))
          · exact .inl (List.mem_append_right _ later)
        · rcases List.mem_cons.mp closeStatus with now | later
          · exact absurd now.symm last
          · exact .inr (List.mem_append_right _ later)

/-- How the instructions of an event or an instant write end: with `get_event`, or with
a `close`. -/
inductive Ends (status : TcpStatus) : List Instr → Prop where
  | simple {upper : List Instr} {last : Instr}
      (which : last = .getEvent ∨ last = .finishEvent ∨ last = .close ∨ last = .closeStatus) :
      Ends status (upper ++ [last])
  | dispatch {events : Events} : Ends status [.dispatch events]
  | afterReconnect {upper : List Instr} {events : Events}
      (before : status = .connecting ∨ status = .connected)
      (above : ∀ instr ∈ upper, instr = .reconnect ∨ Instr.Closing instr) :
      Ends status (upper ++ [.afterReconnect events])

theorem ends_busy {status : TcpStatus} {todo : List Instr} (ends : Ends status todo) :
    todo ≠ [] := by
  cases ends with
  | dispatch => exact List.cons_ne_nil _ _
  | simple | afterReconnect => exact List.append_ne_nil_of_right_ne_nil _ (List.cons_ne_nil _ _)

theorem event_body_last (events : Events) : ∃ front, eventBody events = front ++ [.finishEvent] := by
  refine ⟨(if events.epollin then [.directRead, .processRead] else []) ++ .checkReadable ::
    (if events.epollrdhup then [.set (.readable false), .processRead] else []) ++
    [.writeFlush, .writeStage events.epollout], ?_⟩
  simp [eventBody]

theorem event_body_ends (events : Events) {status : TcpStatus} (upper : List Instr) :
    Ends status (upper ++ eventBody events) := by
  obtain ⟨front, shape⟩ := event_body_last events
  rw [shape, ← List.append_assoc]
  exact .simple (.inr (.inl rfl))

theorem dispatched_ends (events : Events) {status : TcpStatus} (open_ : ¬Final status) :
    Ends status (dispatched events status) := by
  cases status with
  | initializing | connected => exact event_body_ends events []
  | connecting =>
      have ends : Ends .connecting ([.reconnect] ++ [.afterReconnect events]) :=
        .afterReconnect (.inl rfl) (by simp)
      exact ends
  | peerShutdownWrite =>
      simp only [dispatched]
      split
      · have ends : Ends .peerShutdownWrite ([.processWrite] ++ [.close]) :=
          .simple (.inr (.inr (.inl rfl)))
        exact ends
      · exact event_body_ends events []
  | shutdownWrite => exact event_body_ends events _
  | closed => exact absurd (.inl rfl) open_
  | invalid => exact absurd (.inr rfl) open_

theorem single_ends {status : TcpStatus} {last : Instr}
    (which : last = .getEvent ∨ last = .finishEvent ∨ last = .close ∨ last = .closeStatus) :
    Ends status [last] := by
  have ends : Ends status ([] ++ [last]) := .simple which
  exact ends

theorem last_step (open_ : ¬Final s.status) (ends : Ends s.status [instr])
    (moved : s.run [] instr input = some after) :
    Final after.status ∨ Ends after.status after.todo ∨ instr = .getEvent ∧ after.todo = [] := by
  generalize shape : [instr] = todo at ends
  cases ends with
  | @simple upper last which =>
      obtain ⟨rfl, rfl⟩ : upper = [] ∧ last = instr := by
        cases upper with
        | nil => exact ⟨rfl, (List.cons.inj shape).1.symm⟩
        | cons first upper => simp at shape
      rcases which with rfl | rfl | rfl | rfl
      · cases moved
        refine .inr (.inr ⟨rfl, ?_⟩)
        rw [if_neg (fun shut => open_ (.inl shut))]
        rfl
      · cases moved
        refine .inr (.inl ?_)
        dsimp only
        split
        · exact single_ends (.inr (.inr (.inl rfl)))
        · exact single_ends (.inl rfl)
      · cases moved
        have ends : Ends s.status ([.processRead, .cleanWrite, .dropManager] ++ [.closeStatus]) :=
          .simple (.inr (.inr (.inr rfl)))
        exact .inr (.inl ends)
      · exact .inl (close_ends moved)
  | dispatch =>
      obtain rfl := (List.cons.inj shape).1
      cases moved
      refine .inr (.inl ?_)
      dsimp only
      rw [List.append_nil]
      exact dispatched_ends _ open_
  | @afterReconnect upper events before above =>
      obtain ⟨rfl, rfl⟩ : upper = [] ∧ instr = .afterReconnect events := by
        cases upper with
        | nil => exact ⟨rfl, (List.cons.inj shape).1⟩
        | cons first upper => simp at shape
      cases moved
      refine .inr (.inl ?_)
      dsimp only
      rcases before with status | status
      · rw [status]
        exact single_ends (.inl rfl)
      · rw [status, List.append_nil]
        exact event_body_ends events []

theorem closing_above {p : Instr → Prop} {next below : List Instr}
    (pushed : ∀ instr ∈ next, Instr.Closing instr)
    (others : ∀ instr ∈ below, p instr ∨ Instr.Closing instr) :
    ∀ instr ∈ next ++ below, p instr ∨ Instr.Closing instr :=
  List.forall_mem_append.mpr ⟨fun instr new => .inr (pushed instr new), others⟩

theorem handler_ends {status : TcpStatus} {next upper : List Instr} {events : Events}
    (before : status = .connecting ∨ status = .connected)
    (pushed : ∀ instr ∈ next, Instr.Closing instr)
    (above : ∀ instr ∈ upper, instr = .reconnect ∨ Instr.Closing instr) :
    Ends status (next ++ (upper ++ [.afterReconnect events])) := by
  rw [← List.append_assoc]
  exact .afterReconnect before (closing_above pushed above)

theorem reconnect_step {upper : List Instr} {events : Events}
    (before : s.status = .connecting ∨ s.status = .connected)
    (above : ∀ instr ∈ upper, instr = .reconnect ∨ Instr.Closing instr)
    (moved : s.run (upper ++ [.afterReconnect events]) .reconnect input = some after) :
    Final after.status ∨ Ends after.status after.todo := by
  have handled : ∀ pushed ∈ s.handleConnectResult, Instr.Closing pushed := by
    unfold Tcp.handleConnectResult
    split <;> simp [Instr.Closing]
  cases input with
  | connected result =>
      cases moved
      split
      · rename_i status
        cases result with
        | succeeded | isConnected => exact .inr (handler_ends (.inr rfl) handled above)
        | inProgress => exact .inr (.afterReconnect (.inl rfl) above)
        | unknown => exact .inl (.inl rfl)
        | interrupted | refused =>
            have closes : ∀ pushed ∈ [Instr.close], Instr.Closing pushed :=
              List.forall_mem_singleton.mpr trivial
            exact .inr (handler_ends before (List.forall_mem_append.mpr ⟨handled, closes⟩) above)
      · exact .inr (.afterReconnect before above)
  | processed _ | flushed _ | read _ | wrote _ | closes | returns => cases moved

theorem ends_step (open_ : ¬Final s.status) (ends : Ends s.status s.todo)
    (at_ : s.todo = instr :: rest) (moved : s.run rest instr input = some after) :
    Final after.status ∨ Ends after.status after.todo ∨ s.todo = [.getEvent] ∧ after.todo = [] := by
  obtain ⟨next, now⟩ := run_pushes at_ (loop_steps ((loop_run at_).trans moved))
  rw [at_] at ends ⊢
  cases rest with
  | nil =>
      rcases last_step open_ ends moved with final | remains | ⟨rfl, idle⟩
      · exact .inl final
      · exact .inr (.inl remains)
      · exact .inr (.inr ⟨rfl, idle⟩)
  | cons second rest =>
      generalize shape : instr :: second :: rest = todo at ends
      cases ends with
      | dispatch => cases shape
      | @simple upper last which =>
          cases upper with
          | nil => cases shape
          | cons first upper =>
              have below : second :: rest = upper ++ [last] := (List.cons.inj shape).2
              rw [below, ← List.append_assoc] at now
              rw [now]
              exact .inr (.inl (.simple which))
      | @afterReconnect upper events before above =>
          cases upper with
          | nil => cases shape
          | cons first upper =>
              obtain rfl := (List.cons.inj shape).1
              have below : second :: rest = upper ++ [.afterReconnect events] :=
                (List.cons.inj shape).2
              obtain ⟨here, others⟩ := List.forall_mem_cons.mp above
              rw [below] at moved
              rcases here with rfl | closing
              · exact (reconnect_step before others moved).imp_right .inl
              · obtain ⟨⟨next, now, pushed⟩, status, _⟩ := closing_step closing moved
                rcases status with same | ⟨_, shut⟩
                · rw [now, same]
                  exact .inr (.inl (handler_ends before pushed others))
                · exact .inl (.inl shut)

end Npoller.TcpChanges
