import Npoller.TcpLoop

/-!
Whether a busy connection writes again. `write_busy` is set when `write(2)` reports
EAGAIN and cleared by `connect_success` only. `io::process_event` writes on EPOLLOUT
whatever the flag says; `tcp::process_event` asks the flag alone, and
`process_instant_write` does not ask it. So the flag is right as long as a write on a
busy connection fails with EAGAIN at once, and nothing is left behind as long as no
EPOLLOUT comes for a busy connection with bytes to send.
-/

namespace Npoller.WriteResume

open DirectIo IoBuffer MemContainer SizeT StepSystem TcpLoop TcpSetters

/-- The first `write(2)` fails with EAGAIN. A later one does not count: where the first
fails with EINTR the flag stays set until the next, though nothing has failed with EAGAIN. -/
def StillBusy : List WriteResult → Prop
  | [] => True
  | .failed errno :: _ | .zero errno :: _ => errno = .eagain
  | .accepted _ :: _ => False

instance (results : List WriteResult) : Decidable (StillBusy results) := by
  unfold StillBusy
  split <;> infer_instance

variable {θ : Type*}

/-- What `write(2)` returns from here on. -/
def writeResults : Input → List WriteResult
  | .wrote results => results
  | _ => []

/-- A write on a busy connection fails with EAGAIN at once, and the write stage of an
event with EPOLLOUT finds no busy connection that has bytes to send. -/
def Resumes (s : Tcp θ) : Move θ → Prop
  | .loop input =>
      (s.todo.head? = some .directWrite → s.writeBusy = true → Attempts s →
        StillBusy (writeResults input)) ∧
      (s.todo.head? = some (.writeStage true) → s.writeBusy = true → ¬Attempts s)
  | _ => True

instance (s : Tcp θ) : (move : Move θ) → Decidable (Resumes s move)
  | .loop _ => inferInstanceAs (Decidable ((_ → _) ∧ (_ → _)))
  | .call _ | .register .. | .advance _ => inferInstanceAs (Decidable True)

section Drain
variable {results : List WriteResult} {s : Buf} {done : Drained}

theorem drain_exit (drains : drainBuffer results s = .ok done) :
    ∃ ended, directWriteLoop s.mem results 0 0 s.cb = .ok ended ∧ ended.exit = done.exit := by
  unfold drainBuffer at drains
  cases loops : directWriteLoop s.mem results 0 0 s.cb with
  | error fault =>
      rw [loops] at drains
      cases drains
  | ok ended =>
      rw [loops] at drains
      refine ⟨ended, rfl, ?_⟩
      change (shrinkSize _ >>= fun buf => _) = _ at drains
      cases shrunk : shrinkSize ⟨s.mem, if ended.cb.beginPos = ended.cb.endPos then ended.cb.emptied
          else ended.cb⟩ with
      | error fault =>
          rw [shrunk] at drains
          cases drains
      | ok buf =>
          rw [shrunk] at drains
          cases drains
          rfl

theorem drain_nothing (drains : drainBuffer results s = .ok done) (sent : ¬Unsent s.cb) :
    done.exit = .drained := by
  obtain ⟨ended, loops, same⟩ := drain_exit drains
  rw [write_loop_sent sent] at loops
  cases loops
  exact same.symm

theorem drain_again (drains : drainBuffer results s = .ok done) (unsent : Unsent s.cb)
    (busy : StillBusy results) : done.exit = .again := by
  obtain ⟨ended, loops, same⟩ := drain_exit drains
  rw [← same]
  cases block : blockAt s.cb.buffer (s.cb.beginPos / defaultSize) with
  | error fault =>
      have request : writeRequest s.cb = .error fault := by
        rw [writeRequest, if_pos unsent, block]
        rfl
      rw [write_loop_fails request] at loops
      cases loops
  | ok block_ =>
      have request : writeRequest s.cb = .ok (some ⟨block_, canWriteBytes s.cb⟩) := by
        rw [writeRequest, if_pos unsent, block]
        rfl
      cases results with
      | nil =>
          rw [directWriteLoop, request] at loops
          cases loops
          rfl
      | cons result rest =>
          rw [directWriteLoop, request] at loops
          cases result with
          | accepted more => exact busy.elim
          | zero errno | failed errno =>
              cases busy
              cases loops
              rfl

end Drain

structure Writing (s : Tcp θ) : Prop where
  busy : s.writeBusy = true → s.lastWrite = some .again
  owed : s.owesWrite = true → (∃ rest, s.todo = .directWrite :: rest) ∧ Attempts s

variable {s after : Tcp θ} {input : Input}

theorem owes_nothing {instr : Instr} {rest : List Instr} (writing : Writing s)
    (at_ : s.todo = instr :: rest) (other : instr ≠ .directWrite) : s.owesWrite = false := by
  apply eq_false_of_ne_true
  intro owes
  obtain ⟨⟨below, top⟩, _⟩ := writing.owed owes
  rw [at_] at top
  exact other (List.cons_eq_cons.mp top).1

theorem writing_quiet (writing : Writing s) (owes : s.owesWrite = false)
    (busy : after.writeBusy = s.writeBusy) (last : after.lastWrite = s.lastWrite)
    (owed : after.owesWrite = s.owesWrite) : Writing after := by
  refine ⟨?_, ?_⟩
  · rw [busy, last]
    exact writing.busy
  · rw [owed, owes]
    nofun

theorem wrote_writing {results : List WriteResult} {done : Drained} {rest : List Instr}
    (writing : Writing s) (writable : Writable s.status)
    (allowed : s.writeBusy = true → Attempts s → StillBusy results)
    (drains : drainBuffer results s.writeBuffer = .ok done) :
    Writing { s with
      writeBuffer := done.buf
      haveWrite := wadd s.haveWrite done.writeSum
      writeBusy := s.writeBusy || done.exit = .again
      status := writeEnded s.status done.exit
      lastWrite := if Unsent s.writeBuffer.cb then some done.exit else s.lastWrite
      owesWrite := s.owesWrite && !decide (Unsent s.writeBuffer.cb)
      todo := afterDirectWrite (writeEnded s.status done.exit) ++ rest } := by
  by_cases unsent : Unsent s.writeBuffer.cb
  · refine ⟨?_, ?_⟩
    · intro busy
      change (if Unsent s.writeBuffer.cb then some done.exit else s.lastWrite) = some .again
      rw [if_pos unsent]
      -- A busy connection stays as it is when the write fails at once; otherwise this write
      -- has ended with EAGAIN itself.
      rcases Bool.or_eq_true_iff.mp busy with before | again
      · exact congrArg some (drain_again drains unsent (allowed before ⟨writable, unsent⟩))
      · exact congrArg some (of_decide_eq_true again)
    · intro owes
      rw [decide_eq_true unsent, Bool.not_true, Bool.and_false] at owes
      cases owes
  · have exit := drain_nothing drains unsent
    refine ⟨?_, ?_⟩
    · intro busy
      change (if Unsent s.writeBuffer.cb then some done.exit else s.lastWrite) = some .again
      rw [if_neg unsent]
      rcases Bool.or_eq_true_iff.mp busy with before | again
      · exact writing.busy before
      · rw [exit] at again
        cases again
    · intro owes
      have before : s.owesWrite = true := (Bool.and_eq_true_iff.mp owes).1
      exact absurd (writing.owed before).2.2 unsent

theorem loop_writing (writing : Writing s) (allowed : Resumes s (.loop input))
    (step : LoopStep s input after) : Writing after := by
  cases step with
  | @goes _ instr next rest status managed connectHandler at_ _ _ _ unwritable =>
      have owes : s.owesWrite = false := by
        apply eq_false_of_ne_true
        intro owes
        obtain ⟨⟨below, top⟩, writable, _⟩ := writing.owed owes
        rw [at_] at top
        exact unwritable (List.cons_eq_cons.mp top).1 writable
      exact writing_quiet writing owes rfl rfl rfl
  | connected at_ connects =>
      have owes : s.owesWrite = false := by
        apply owes_nothing writing at_
        rintro rfl
        rcases connects with other | other <;> cases other
      refine ⟨nofun, ?_⟩
      intro owed
      rw [show s.owesWrite = true from owed] at owes
      cases owes
  | @staged _ epollout rest at_ =>
      have owes := owes_nothing writing at_ nofun
      refine ⟨writing.busy, ?_⟩
      intro owed
      have finds : (s.owesWrite || epollout && decide (Attempts s)) = true := owed
      rw [owes, Bool.false_or, Bool.and_eq_true_iff] at finds
      obtain ⟨rfl, attempts⟩ := finds
      have attempts : Attempts s := of_decide_eq_true attempts
      -- A write is owed here only on a connection that is not busy, so `directWrite` comes next.
      have stage := allowed.2
      rw [at_] at stage
      have free : s.writeBusy = false := eq_false_of_ne_true (fun busy => stage rfl busy attempts)
      refine ⟨⟨.processWrite :: rest, ?_⟩, attempts⟩
      change (if s.writeBusy then [] else [.directWrite, .processWrite]) ++ rest = _
      rw [free]
      rfl
  | wrote at_ writable drains =>
      have again := allowed.1
      rw [at_] at again
      exact wrote_writing writing writable (again rfl) drains
  | flushed at_ _ | completed at_ _ | erased at_ | unparked at_ _ | doneParked at_ _
  | leftParked at_ _ | readAll at_ _ | doneRead at_ _ | parks at_ _ | cleared at_ | closes at_
  | cleaned at_ _ | failed at_ _ | returned at_ =>
      exact writing_quiet writing (owes_nothing writing at_ nofun) rfl rfl rfl

theorem step_writing [DecidableEq θ] {move : Move θ} (writing : Writing s)
    (allowed : Resumes s move) (moves : (tcpLoop θ).step s move after) : Writing after := by
  have registered {t : θ} (step : RegisterStep s t after) : Writing after := by
    cases step <;> exact ⟨writing.busy, writing.owed⟩
  cases move with
  | call made =>
      obtain ⟨idle, readyToWrite, next, _, rfl⟩ := call_steps moves
      have owes : s.owesWrite = false := by
        apply eq_false_of_ne_true
        intro owes
        obtain ⟨⟨below, top⟩, _⟩ := writing.owed owes
        rw [idle] at top
        cases top
      exact writing_quiet writing owes rfl rfl rfl
  | loop input => exact loop_writing writing allowed (loop_steps moves)
  | register t type ioId size => exact registered (register_steps moves)
  | advance t => exact registered (advance_steps moves)

/-- In a run that resumes in time, the flag is set only if the last `write(2)` failed
with EAGAIN (a return of 0 counts as the failure that `errno` names), and no event
with EPOLLOUT that found bytes to send on a writable connection ends without a write. -/
theorem busy_connection_resumes [DecidableEq θ] (reached : ReachableBy (tcpLoop θ) Resumes s) :
    (s.writeBusy = true → s.lastWrite = some .again) ∧ (s.todo = [] → s.owesWrite = false) := by
  have writing : Writing s := by
    apply invariant _ _ reached
    · rintro state ⟨fd, status, connectHandler, mem, rfl⟩
      exact ⟨nofun, nofun⟩
    · exact fun _ _ _ holds allowed moves => step_writing holds allowed moves
  refine ⟨writing.busy, ?_⟩
  intro idle
  apply eq_false_of_ne_true
  intro owes
  obtain ⟨⟨below, top⟩, _⟩ := writing.owed owes
  rw [idle] at top
  cases top

def twoBytes : Buf := ⟨.initial (fun _ _ => 0) 256, ⟨[0], 0, 2⟩⟩

def untilBusy : List (Move Unit) :=
  [.register () .write (-1) 2, .advance (), .advance (), .advance (), .call .instantWrite,
    .loop (.flushed twoBytes), .loop (.flushed twoBytes), .loop (.wrote [.failed .eagain]),
    .loop .returns, .loop .returns]

def writableEvent : List (Move Unit) :=
  .call (.event ⟨false, true, false⟩) :: List.replicate 2 (.loop .returns) ++
    [.loop (.flushed twoBytes)]

/-- EPOLLIN alone comes while the connection is busy. -/
def stillBusy : Tcp Unit :=
  (afterMoves Resumes .connected twoBytes.mem (untilBusy ++
    [.call (.event ⟨true, false, false⟩), .loop .returns, .loop (.read .again),
      .loop (.processed true), .loop (.processed true), .loop .returns, .loop (.flushed twoBytes),
      .loop .returns, .loop .returns, .loop .returns])).get (by decide +kernel)

theorem busy_connection_resumes_still :
    (stillBusy.writeBusy = true → stillBusy.lastWrite = some .again) ∧
      (stillBusy.todo = [] → stillBusy.owesWrite = false) :=
  busy_connection_resumes (moves_reachable (by decide +kernel))

/-- EPOLLOUT comes, and the write stage skips the write. -/
def stalled : Tcp Unit :=
  (afterMoves (fun _ _ => True) .connected twoBytes.mem
    (untilBusy ++ writableEvent ++ List.replicate 3 (.loop .returns))).get (by decide +kernel)

theorem busy_connection_stalled : Reachable (tcpLoop Unit) stalled ∧
    stalled.writeBusy = true ∧ stalled.todo = [] ∧ stalled.owesWrite = true :=
  ⟨moves_reachable (by decide +kernel), by decide +kernel, by decide +kernel, by decide +kernel⟩

end Npoller.WriteResume
