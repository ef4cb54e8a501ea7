import Npoller.PlainEvents

/-!
Whether an accepted write of an `io` of the base class is left alone. As `write_busy` is
never cleared, the level-triggered EPOLLOUT of an io that can be read stays on after the
first EAGAIN. An io that cannot be read has edge-triggered EPOLLOUT, and `do_register`
does not wake the loop for a busy io: what is registered after the last edge waits for
ever.
-/

namespace Npoller.PlainWrites

open DirectIo PlainEvents StepSystem

variable {ω θ : Type*} {s after : PlainIo ω θ} {input : Input}

section Serving

structure Served (s : PlainIo ω θ) : Prop where
  managed : s.valid = true → s.managed = true
  left : ∀ t, s.threads t = .loadBusy false → s.valid = false
  queued : Open s → s.flags.writeBusy = false → s.writeList ≠ [] →
    0 < s.readyToWrite ∨ (∃ t, (s.threads t).Registering) ∨ s.pc.flushes = true
  buffered : Open s → s.flags.writeBusy = false → 0 < s.buffered → s.pc.empties = true

theorem open_before (step : LoopStep s after) (open_ : Open after) : Open s :=
  ⟨(step.valid open_.1).1, step.listed open_.2.1, step.falls.writable open_.2.2⟩

theorem idle_before (step : LoopStep s after) (idle : after.flags.writeBusy = false) :
    s.flags.writeBusy = false :=
  eq_false_of_ne_true (fun busy => Bool.false_ne_true (idle.symm.trans (step.falls.busy busy)))

theorem write_ended_empty {now : Nat} {exit : Exit} (wrote : Wrote s.buffered now exit)
    (finishes : exit ≠ .interrupted ∧ exit ≠ .eof ∧ exit ≠ .failed)
    (open_ : Open (PlainIo.writeEnded { s with buffered := now } exit))
    (idle : (PlainIo.writeEnded { s with buffered := now } exit).flags.writeBusy = false) :
    (PlainIo.writeEnded { s with buffered := now } exit).buffered = 0 := by
  cases exit with
  | again => exact nomatch idle
  | invalid | brokenPipe => exact nomatch open_.2.2
  | badFd => exact nomatch open_.1
  | drained => exact wrote.2.mp rfl
  | interrupted => exact absurd rfl finishes.1
  | eof => exact absurd rfl finishes.2.1
  | failed => exact absurd rfl finishes.2.2

/-- The last `direct_write` of an event or an instant write is the only step that has
to leave no bytes. -/
theorem turned_bytes (finishes : Finishes s (.loop input)) (turned : Turned s input after)
    (open_ : Open after) (idle : after.flags.writeBusy = false) (some_ : 0 < after.buffered) :
    after.pc.empties = true ∨ (0 < s.buffered ∧ s.pc.empties = false) := by
  cases turned with
  | reads at_ reported readable =>
      rw [(read_ended_pc _).1]
      exact .inl rfl
  | drops at_ reported => exact .inl rfl
  | goes inside follows flushes empties =>
      cases before : s.pc.empties with
      | true => exact .inl (empties open_ idle before)
      | false => exact .inr ⟨some_, rfl⟩
  | flushes at_ listed =>
      refine .inl ?_
      change s.pc.empties = true
      rw [at_]
      rfl
  | @writes turn now exit at_ given writable wrote =>
      rw [given, Finishes, at_] at finishes
      have empty := write_ended_empty (s := { s with pc := Pc.afterWrite turn }) wrote
        (finishes rfl) open_ idle
      exact absurd some_ (empty ▸ Nat.lt_irrefl 0)
  | cleans at_ listed | modifies at_ asked | ends at_ same =>
      refine .inr ⟨some_, ?_⟩
      rw [at_]
      rfl

theorem loop_served (served : Served s) (finishes : Finishes s (.loop input))
    (moved : s.loop s.pc input = some after) : Served after := by
  have turned := loop_cases moved
  have step := turned_step turned
  refine ⟨fun valid => ?_, fun t at_ => ?_, fun open_ idle some_ => ?_, fun open_ idle some_ => ?_⟩
  · rw [(step.valid valid).2]
    exact served.managed (step.valid valid).1
  · rw [step.threads] at at_
    apply eq_false_of_ne_true
    intro valid
    exact Bool.false_ne_true ((served.left t at_).symm.trans (step.valid valid).1)
  · obtain ⟨earlier, flushes⟩ := step.queue some_
    rw [step.ready, step.threads]
    rcases served.queued (open_before step open_) (idle_before step idle) earlier with
      ready | registering | later
    · exact .inl ready
    · exact .inr (.inl registering)
    · exact .inr (.inr (flushes later))
  · rcases turned_bytes finishes turned open_ idle some_ with later | ⟨earlier, never⟩
    · exact later
    · have comes := served.buffered (open_before step open_) (idle_before step idle) earlier
      exact absurd (never.symm.trans comes) Bool.false_ne_true

variable [DecidableEq θ]

theorem goto_threads (t u : θ) (pc : RegisterPc ω) :
    (s.goto t pc).threads u = if u = t then pc else s.threads u :=
  Function.update_apply ..

theorem goto_registering {t : θ} {pc : RegisterPc ω}
    (on : (s.threads t).Registering → pc.Registering)
    (some_ : ∃ u, (s.threads u).Registering) : ∃ u, ((s.goto t pc).threads u).Registering := by
  obtain ⟨u, registering⟩ := some_
  refine ⟨u, ?_⟩
  rw [goto_threads]
  split
  · rename_i same
    exact on (same ▸ registering)
  · exact registering

theorem goto_served {t : θ} {pc : RegisterPc ω} (served : Served s)
    (left : pc = .loadBusy false → s.valid = false)
    (on : Open s → s.flags.writeBusy = false → (s.threads t).Registering → pc.Registering) :
    Served (s.goto t pc) := by
  refine ⟨served.managed, fun u at_ => ?_, fun open_ idle some_ => ?_, served.buffered⟩
  · rw [goto_threads] at at_
    split at at_
    · exact left at_
    · exact served.left u at_
  · rcases served.queued open_ idle some_ with ready | registering | later
    · exact .inl ready
    · exact .inr (.inl (goto_registering (on open_ idle) registering))
    · exact .inr (.inr later)

theorem advance_served {t : θ} {pc : RegisterPc ω} (served : Served s) (at_ : s.threads t = pc)
    (moved : s.advance t pc = some after) : Served after := by
  cases pc with
  | idle => cases moved
  | checkValid op | checkManager op | checkWritable op =>
      cases moved
      refine goto_served served ?_ ?_
      · split <;> nofun
      · rw [at_]
        exact fun _ _ => False.elim
  | push op =>
      cases moved
      have went : Served (s.goto t .loadManager) :=
        goto_served served nofun (fun _ _ _ => trivial)
      refine ⟨went.managed, went.left, fun _ _ _ => .inr (.inl ⟨t, ?_⟩), went.buffered⟩
      change ((s.goto t .loadManager).threads t).Registering
      rw [goto_threads, if_pos rfl]
      trivial
  | loadManager =>
      cases moved
      refine goto_served served (fun none_ => ?_) (fun _ _ _ => trivial)
      apply eq_false_of_ne_true
      intro valid
      rw [served.managed valid] at none_
      cases none_
  | loadBusy managed =>
      cases moved
      refine goto_served served ?_ (fun open_ idle _ => ?_)
      · split <;> nofun
      · cases managed with
        | true =>
            rw [idle]
            trivial
        | false => exact absurd ((served.left t at_).symm.trans open_.1) Bool.false_ne_true
  | find =>
      cases moved
      refine goto_served served ?_ (fun open_ _ _ => ?_)
      · split <;> nofun
      · rw [open_.2.1]
        trivial
  | enqueue =>
      cases moved
      refine ⟨served.managed, fun u at_ => ?_, fun _ _ _ => .inl (Nat.succ_pos _), served.buffered⟩
      change (s.goto t .idle).threads u = _ at at_
      rw [goto_threads] at at_
      split at at_
      · cases at_
      · exact served.left u at_

theorem run_served {move : Move ω θ} (served : Served s) (finishes : Finishes s move)
    (moved : run s move = some after) : Served after := by
  cases move with
  | report events =>
      simp only [run] at moved
      split at moved
      · cases moved
        exact ⟨served.managed, served.left, fun _ _ _ => .inr (.inr rfl), fun _ _ _ => rfl⟩
      · cases moved
  | instantWrite =>
      simp only [run] at moved
      split at moved
      · cases moved
        exact ⟨served.managed, served.left, fun _ _ _ => .inr (.inr rfl), fun _ _ _ => rfl⟩
      · cases moved
  | loop input => exact loop_served served finishes moved
  | register t op =>
      obtain ⟨idle, rfl⟩ := register_aside moved
      refine goto_served served (fun same => by cases same) ?_
      rw [idle]
      exact fun _ _ => False.elim
  | advance t => exact advance_served served rfl moved
  | close =>
      cases moved
      exact ⟨fun valid => absurd valid Bool.false_ne_true, fun _ _ => rfl,
        fun open_ => absurd open_.1 Bool.false_ne_true,
        fun open_ => absurd open_.1 Bool.false_ne_true⟩
  | removeIo =>
      cases moved
      exact ⟨served.managed, served.left, fun open_ => absurd open_.2.1 Bool.false_ne_true,
        fun open_ => absurd open_.2.1 Bool.false_ne_true⟩

theorem reachable_served (reached : ReachableBy (plainSystem ω θ) Finishes s) : Served s := by
  induction reached with
  | start begins =>
      obtain ⟨flags, mask, _, _, rfl⟩ := begins
      exact ⟨fun _ => rfl, nofun, fun _ _ some_ => absurd rfl some_,
        fun _ _ some_ => absurd some_ (Nat.lt_irrefl 0)⟩
  | next _ meets moves ih => exact run_served ih meets moves

end Serving

/-- Something the application has written is not sent yet. -/
def Pending (s : PlainIo ω θ) : Prop := s.writeList ≠ [] ∨ 0 < s.buffered

/-- The kernel will report EPOLLOUT once the descriptor takes bytes. -/
def Reports (s : PlainIo ω θ) : Prop :=
  s.mask.epollout = true ∧ (s.mask.epollet = true → s.owesEdge = true)

section Results
variable [DecidableEq θ]

/-- A registered io that can be read and written has level-triggered EPOLLOUT exactly
while it is busy, and one that cannot be read has edge-triggered EPOLLOUT. -/
theorem writable_mask (reached : Reachable (plainSystem ω θ) s) (idle : s.pc = .waiting)
    (open_ : Open s) :
    s.mask.epollout = (!s.flags.readable || s.flags.writeBusy) ∧
      s.mask.epollet = !s.flags.readable := by
  obtain ⟨_, listed, writable⟩ := open_
  have some_ : ¬(s.flags.readable = false ∧ s.flags.writable = false) := by
    rw [writable]
    exact fun both => nomatch both.2
  have asked : s.flags.getEvent = some _ := if_neg some_
  rw [(reachable_masked reached).mask listed _ (by rwa [PlainIo.reference, if_pos idle]), writable]
  exact ⟨Bool.true_and _, Bool.true_and _⟩

/-- As long as every `direct_write` writes everything, meets EAGAIN or gives the write
side up: no accepted write of an open io is left alone while the loop thread is away,
unless the io cannot be read and is busy. -/
theorem plain_writes_served (reached : ReachableBy (plainSystem ω θ) Finishes s)
    (idle : s.pc = .waiting) (open_ : Open s) (pending : Pending s)
    (able : s.flags.readable = true ∨ s.flags.writeBusy = false) :
    0 < s.readyToWrite ∨ (∃ t, (s.threads t).Registering) ∨ Reports s := by
  have served := reachable_served reached
  cases busy : s.flags.writeBusy with
  | true =>
      have readable : s.flags.readable = true := by
        rcases able with readable | free
        · exact readable
        · exact nomatch busy.symm.trans free
      obtain ⟨out, edge⟩ := writable_mask (reachable_of_allowed reached) idle open_
      rw [busy, Bool.or_true] at out
      rw [readable] at edge
      exact .inr (.inr ⟨out, fun edges => absurd (edge.symm.trans edges) Bool.false_ne_true⟩)
  | false =>
      have nothing : ¬0 < s.buffered := by
        intro some_
        have later := served.buffered open_ busy some_
        rw [idle] at later
        cases later
      rcases served.queued open_ busy (pending.resolve_right nothing) with ready | more | later
      · exact .inl ready
      · exact .inr (.inl more)
      · rw [idle] at later
        cases later

/-- The io is busy, nothing is on the way to `ready_to_write`, and the kernel does not
owe a report. -/
structure Stuck (s : PlainIo ω θ) : Prop where
  idle : s.pc = .waiting
  busy : s.flags.writeBusy = true
  empty : s.readyToWrite = 0
  away : ∀ t, s.threads t ≠ .find ∧ s.threads t ≠ .enqueue
  unowed : ¬Reports s

omit [DecidableEq θ] in
theorem stuck_frame (stuck : Stuck s) (pc : after.pc = s.pc) (flags : after.flags = s.flags)
    (ready : after.readyToWrite = s.readyToWrite) (mask : after.mask = s.mask)
    (edge : after.owesEdge = s.owesEdge)
    (away : ∀ t, after.threads t ≠ .find ∧ after.threads t ≠ .enqueue) : Stuck after := by
  refine ⟨pc.trans stuck.idle, ?_, ready.trans stuck.empty, away, ?_⟩
  · rw [flags]
    exact stuck.busy
  · rw [Reports, mask, edge]
    exact stuck.unowed

theorem stuck_goto {t : θ} {pc : RegisterPc ω} (stuck : Stuck s)
    (away : pc ≠ .find ∧ pc ≠ .enqueue) : Stuck (s.goto t pc) := by
  refine stuck_frame stuck rfl rfl rfl rfl rfl (fun u => ?_)
  rw [goto_threads]
  split
  · exact away
  · exact stuck.away u

theorem stuck_advance {t : θ} {pc : RegisterPc ω} (stuck : Stuck s) (at_ : s.threads t = pc)
    (moved : s.advance t pc = some after) :
    Stuck after ∧ after.buffered = s.buffered ∧ s.writeList <+: after.writeList := by
  have away := stuck.away t
  rw [at_] at away
  have same : s.writeList <+: s.writeList := List.prefix_refl _
  cases pc with
  | idle => cases moved
  | checkValid op | checkManager op | checkWritable op =>
      cases moved
      refine ⟨stuck_goto stuck ?_, rfl, same⟩
      split <;> exact ⟨nofun, nofun⟩
  | push op =>
      cases moved
      have went : Stuck (s.goto t .loadManager) := stuck_goto stuck ⟨nofun, nofun⟩
      exact ⟨stuck_frame went rfl rfl rfl rfl rfl went.away, rfl, List.prefix_append _ _⟩
  | loadManager =>
      cases moved
      exact ⟨stuck_goto stuck ⟨nofun, nofun⟩, rfl, same⟩
  | loadBusy managed =>
      cases moved
      refine ⟨stuck_goto stuck ?_, rfl, same⟩
      rw [stuck.busy]
      exact ⟨nofun, nofun⟩
  | find => exact absurd rfl away.1
  | enqueue => exact absurd rfl away.2

/-- `epoll_wait` does not report the io. -/
def Silent : Move ω θ → Prop
  | .report _ => False
  | _ => True

theorem stuck_run {move : Move ω θ} (stuck : Stuck s) (silent : Silent move)
    (moved : run s move = some after) :
    Stuck after ∧ after.buffered = s.buffered ∧ s.writeList <+: after.writeList := by
  have same : s.writeList <+: s.writeList := List.prefix_refl _
  cases move with
  | report events => exact silent.elim
  | instantWrite =>
      have none_ : ¬(s.pc = .waiting ∧ 0 < s.readyToWrite) := by
        rw [stuck.empty]
        exact fun both => absurd both.2 (Nat.lt_irrefl 0)
      rw [run, if_neg none_] at moved
      cases moved
  | loop input =>
      rw [run, stuck.idle] at moved
      cases input <;> cases moved
  | register t op =>
      rw [(register_aside moved).2]
      exact ⟨stuck_goto stuck ⟨by simp, by simp⟩, rfl, same⟩
  | advance t => exact stuck_advance stuck rfl moved
  | close | removeIo =>
      cases moved
      exact ⟨stuck_frame stuck rfl rfl rfl rfl rfl stuck.away, rfl, same⟩

/-- What is registered from here on stays in `write_list`, whoever registers it, and
the bytes in the buffer stay there too. -/
theorem stuck_writes_stay (stuck : Stuck s) (moves : List (Move ω θ))
    (silent : ∀ move ∈ moves, Silent move) (ran : moves.foldlM run s = some after) :
    Stuck after ∧ after.buffered = s.buffered ∧ s.writeList <+: after.writeList := by
  induction moves generalizing s with
  | nil =>
      cases ran
      exact ⟨stuck, rfl, List.prefix_refl _⟩
  | cons move moves ih =>
      rw [List.foldlM_cons] at ran
      cases moved : run s move with
      | none =>
          rw [moved] at ran
          cases ran
      | some next =>
          rw [moved] at ran
          obtain ⟨here, bytes, listed⟩ :=
            stuck_run stuck (silent move (List.mem_cons_self ..)) moved
          obtain ⟨there, later, extended⟩ :=
            ih here (fun other member => silent other (List.mem_cons_of_mem _ member)) ran
          exact ⟨there, later.trans bytes, listed.trans extended⟩

theorem unread_stuck (reached : Reachable (plainSystem ω θ) s) (idle : s.pc = .waiting)
    (open_ : Open s) (unread : s.flags.readable = false) (busy : s.flags.writeBusy = true)
    (spent : s.owesEdge = false) (empty : s.readyToWrite = 0)
    (away : ∀ t, s.threads t ≠ .find ∧ s.threads t ≠ .enqueue) : Stuck s := by
  refine ⟨idle, busy, empty, away, fun reports => ?_⟩
  obtain ⟨_, edge⟩ := writable_mask reached idle open_
  rw [unread] at edge
  exact Bool.false_ne_true (spent.symm.trans (reports.2 edge))

end Results

/-- An operation is registered by a thread up to its `add_write_instant_task`. -/
def registers : List (Move Nat Bool) :=
  [.register true 0, .advance true, .advance true, .advance true, .advance true, .advance true,
    .advance true]

/-- The operation finds `write_busy` unset, and five bytes of it come to `direct_write`. -/
def meetsEagain : List (Move Nat Bool) :=
  registers ++ [.advance true, .advance true, .instantWrite, .loop (.flushed 5), .loop (.flushed 5),
    .loop (.wrote 3 .again), .loop .none]

def meetsEpollout : List (Move Nat Bool) :=
  meetsEagain ++ [.report ⟨false, true, false⟩, .loop (.read .again), .loop .none,
    .loop (.flushed 0), .loop .none, .loop (.wrote 0 .drained), .loop .none, .loop .none]

def finished (start : PlainIo Nat Bool) (moves : List (Move Nat Bool)) :
    Option (PlainIo Nat Bool) :=
  moves.foldlM (fun s move => if Finishes s move then run s move else none) start

theorem finished_reachable {flags : Flags} {mask : Mask} {moves : List (Move Nat Bool)}
    {s : PlainIo Nat Bool} (idle : flags.writeBusy = false) (asked : flags.getEvent = some mask)
    (ran : finished (.added flags mask) moves = some s) :
    ReachableBy (plainSystem Nat Bool) Finishes s :=
  guarded_reachable (fun _ _ _ moved => moved) (.start ⟨flags, mask, idle, asked, rfl⟩) ran

def socketFlags : Flags := ⟨true, true, true, false⟩

def socketMask : Mask := ⟨true, true, false, false⟩

def pipeFlags : Flags := ⟨false, true, false, false⟩

def pipeMask : Mask := ⟨false, false, true, true⟩

theorem eagain_runs : (finished (.added socketFlags socketMask) meetsEagain).isSome = true := by
  decide

def busySocket : PlainIo Nat Bool :=
  (finished (.added socketFlags socketMask) meetsEagain).get eagain_runs

theorem busy_socket_reachable : ReachableBy (plainSystem Nat Bool) Finishes busySocket :=
  finished_reachable rfl rfl (Option.eq_some_of_isSome eagain_runs)

theorem plain_mask_current_sample : busySocket.mask = ⟨true, true, true, false⟩ :=
  plain_mask_current (reachable_of_allowed busy_socket_reachable) (by decide) (by decide)
    (by decide)

theorem plain_writes_served_sample : 0 < busySocket.readyToWrite ∨
    (∃ t, (busySocket.threads t).Registering) ∨ Reports busySocket :=
  plain_writes_served busy_socket_reachable (by decide) (by unfold Open; decide)
    (.inr (by decide)) (.inl (by decide))

theorem epollout_runs : (finished (.added pipeFlags pipeMask) meetsEpollout).isSome = true := by
  decide

def spentPipe : PlainIo Nat Bool :=
  (finished (.added pipeFlags pipeMask) meetsEpollout).get epollout_runs

theorem spent_pipe_stuck : Stuck spentPipe := by
  have reached : ReachableBy (plainSystem Nat Bool) Finishes spentPipe :=
    finished_reachable rfl rfl (Option.eq_some_of_isSome epollout_runs)
  exact unread_stuck (reachable_of_allowed reached) (by decide) (by unfold Open; decide) (by decide)
    (by decide) (by decide) (by decide) (by decide)

theorem registers_run : (registers.foldlM run spentPipe).isSome = true := by decide

/-- The operation that is registered next is accepted and left alone. -/
theorem stuck_writes_stay_sample : ∃ after, registers.foldlM run spentPipe = some after ∧
    after.writeList = [0] ∧ Stuck after := by
  have ran := Option.eq_some_of_isSome registers_run
  have silent : ∀ move ∈ registers, Silent move := by simp [registers, Silent]
  exact ⟨_, ran, by decide, (stuck_writes_stay spent_pipe_stuck registers silent ran).1⟩

end Npoller.PlainWrites
