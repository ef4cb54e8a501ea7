import Npoller.BufferSequences
import Npoller.Pipeline

/-!
Bytes on their way through a chain of buffers and connections, as a server that
forwards what it reads: an application pushes to the first buffer or a peer sends to
the first connection, `direct_write` drains a buffer into a connection, `direct_read`
fills a buffer from one, `pop_front_to_other_back_n` hands bytes from buffer to
buffer, and they leave by a copying pop or at a peer. All other buffers of the pool
are used at the same time. A run of the program is one of a chain of queues.
-/

namespace Npoller.Relay

open Outcome MemContainer IoBuffer IoBufferSpec TransferRules DirectIo DirectIoSpec BufferWorld
  BufferSequences StepSystem Pipeline

variable {k : Nat}

inductive Stage (k : Nat) where
  | buffer (i : Fin k)
  | wire (connection : Nat)
  deriving DecidableEq

/-- A connection holds the bytes one kernel took and the other has not delivered. -/
structure State (k : Nat) where
  world : World k
  wires : Nat → List Byte
  entered : List Byte
  left : List Byte

def heldOf (buffers : Fin k → List Byte) (wires : Nat → List Byte) : Stage k → List Byte
  | .buffer i => buffers i
  | .wire connection => wires connection

def State.held (s : State k) : Stage k → List Byte := heldOf (contents s.world) s.wires

inductive RelayOp (k : Nat) where
  | push (i : Fin k) (src : Option Source)
  | arrive (connection : Nat) (bytes : List Byte)
  | transfer (i j : Fin k) (n : Nat)
  | send (i : Fin k) (connection : Nat) (results : List WriteResult)
  | receive (connection : Nat) (i : Fin k) (results : List ReadResult)
  | pop (i : Fin k) (size : Nat)
  | depart (connection : Nat) (count : Nat)
  | aside (op : BufferOp k)

def RelayOp.run (s : State k) : RelayOp k → Except Fault (State k)
  | .push i src => do
      let world ← (BufferOp.pushBack i src).run s.world
      .ok { s with world := world, entered := s.entered ++ sourceBytes src }
  | .arrive connection bytes =>
      .ok { s with
        wires := Function.update s.wires connection (s.wires connection ++ bytes)
        entered := s.entered ++ bytes }
  | .transfer i j n => do
      let world ← popFrontToOtherBackN i j n s.world
      .ok { s with world := world }
  | .send i connection results => do
      let done ← drainBuffer results (s.world.buf i)
      .ok { s with
        world := s.world.set i done.buf
        wires := Function.update s.wires connection (s.wires connection ++ done.accepted) }
  | .receive connection i results => do
      let done ← fillBuffer results (s.world.buf i)
      .ok { s with
        world := s.world.set i done.buf
        wires := Function.update s.wires connection
          ((s.wires connection).drop done.delivered.length) }
  | .pop i size => do
      let popped ← popFrontInto size (s.world.buf i)
      .ok { s with world := s.world.set i popped.buf, left := s.left ++ popped.dest }
  | .depart connection count =>
      .ok { s with
        wires := Function.update s.wires connection ((s.wires connection).drop count)
        left := s.left ++ (s.wires connection).take count }
  | .aside op => do
      let world ← op.run s.world
      .ok { s with world := world }

/-- Where on the chain an operation belongs. -/
def RelayOp.Placed (chain : List (Stage k)) : RelayOp k → Prop
  | .push i _ => ∃ later, chain = .buffer i :: later
  | .arrive connection _ => ∃ later, chain = .wire connection :: later
  | .transfer i j _ => ∃ front back, chain = front ++ .buffer i :: .buffer j :: back
  | .send i connection _ => ∃ front back, chain = front ++ .buffer i :: .wire connection :: back
  | .receive connection i _ => ∃ front back, chain = front ++ .wire connection :: .buffer i :: back
  | .pop i _ => ∃ earlier, chain = earlier ++ [.buffer i]
  | .depart connection _ => ∃ earlier, chain = earlier ++ [.wire connection]
  | .aside op => ∀ i ∈ touched op, .buffer i ∉ chain

/-- The kernel delivers what the connection holds, in its order. -/
def RelayOp.Delivers (s : State k) : RelayOp k → Prop
  | .receive connection i results => ∀ done, fillBuffer results (s.world.buf i) = .ok done →
      done.delivered <+: s.wires connection
  | _ => True

/-- The copying pops are called with sizes for which `begin + size` does not wrap. -/
def RelayOp.Admissible (s : State k) : RelayOp k → Prop
  | .pop i size => (BufferOp.popFrontInto i size).Admissible s.world
  | .aside op => op.Admissible s.world
  | _ => True

/-- Beside that each accepting `write(2)` is made with `begin` at a block start. -/
def RelayOp.Aligned (s : State k) (op : RelayOp k) : Prop :=
  op.Admissible s ∧ ∀ i connection results, op = .send i connection results →
    BlockStarts results (s.world.buffers i)

def relaySystem (chain : List (Stage k)) : System (State k) (RelayOp k) where
  init s := (worldSystem k).init s.world ∧ (∀ connection, s.wires connection = []) ∧
    s.entered = [] ∧ s.left = []
  step before op after := op.Placed chain ∧ op.Delivers before ∧ op.run before = .ok after

section Simulation
variable {β : Type} {view : Byte → β} {chain : List (Stage k)} {s : State k} {born : Nat}

/-- The chain with each byte replaced by what is looked at of it. -/
def piped (view : Byte → β) (s : State k) : Pipe (Stage k) β :=
  ⟨List.map view ∘ s.held, s.entered.map view, s.left.map view⟩

/-- Each `write(2)` takes bytes that look like the ones at the front of the buffer. -/
def Looks (view : Byte → β) (s : State k) (op : RelayOp k) : Prop :=
  op.Admissible s ∧ ∀ i connection results, op = .send i connection results →
    ∀ done, drainBuffer results (s.world.buf i) = .ok done →
      done.accepted.map view = ((contents s.world i).take done.accepted.length).map view

structure Passes (born : Nat) (chain : List (Stage k)) (view : Byte → β) (s after : State k) :
    Prop where
  sound : Sound born after.world
  moves : ∃ move, Moves chain (piped view s) move (piped view after)

theorem held_buffer (buffers : Fin k → List Byte) (wires : Nat → List Byte) (i : Fin k)
    (bytes : List Byte) : heldOf (Function.update buffers i bytes) wires =
      Function.update (heldOf buffers wires) (.buffer i) bytes := by
  funext stage
  cases stage with
  | buffer j =>
      by_cases same : j = i
      · subst same
        rw [heldOf, Function.update_self, Function.update_self]
      · have apart : Stage.buffer j ≠ Stage.buffer i := fun equal => same (by cases equal; rfl)
        rw [heldOf, Function.update_of_ne same, Function.update_of_ne apart, heldOf]
  | wire connection => rfl

theorem held_wire (buffers : Fin k → List Byte) (wires : Nat → List Byte) (connection : Nat)
    (bytes : List Byte) : heldOf buffers (Function.update wires connection bytes) =
      Function.update (heldOf buffers wires) (.wire connection) bytes := by
  funext stage
  cases stage with
  | buffer j => rfl
  | wire other =>
      by_cases same : other = connection
      · subst same
        rw [heldOf, Function.update_self, Function.update_self]
      · have apart : Stage.wire other ≠ (Stage.wire connection : Stage k) :=
          fun equal => same (by cases equal; rfl)
        rw [heldOf, Function.update_of_ne same, Function.update_of_ne apart, heldOf]

theorem drain_runs {w : World k} {i : Fin k} {results : List WriteResult} {done : Drained}
    (drained : drainBuffer results (w.buf i) = .ok done) :
    (BufferOp.drain i results).run w = .ok (w.set i done.buf) := by
  rw [BufferOp.run, World.on, drained]
  rfl

theorem fill_runs {w : World k} {i : Fin k} {results : List ReadResult} {done : ReadDone}
    (filled : fillBuffer results (w.buf i) = .ok done) :
    (BufferOp.fill i results).run w = .ok (w.set i done.buf) := by
  rw [BufferOp.run, World.on, filled]
  rfl

theorem pop_runs {w : World k} {i : Fin k} {size : Nat} {popped : Popped}
    (pops : popFrontInto size (w.buf i) = .ok popped) :
    (BufferOp.popFrontInto i size).run w = .ok (w.set i popped.buf) := by
  rw [BufferOp.run, World.on, pops]
  rfl

/-- What all operations show in one way: the stages after the step as an update of
those before it. -/
theorem passes_of {after : State k} (move : Move (Stage k) β) (sound : Sound born after.world)
    (fits : move.Fits chain) (held : List.map view ∘ after.held = move.held (piped view s).held)
    (entered : after.entered.map view = s.entered.map view ++ move.entering)
    (left : after.left.map view = s.left.map view ++ move.leaving (piped view s).held) :
    Passes born chain view s after :=
  ⟨sound, move, fits, fun stage _ => congrFun held stage, entered, left⟩

theorem push_passes {i : Fin k} {src : Option Source} (sound : Sound born s.world)
    (placed : (RelayOp.push i src).Placed chain) :
    Ends allocFails ((RelayOp.push i src).run s) (Passes born chain view s) := by
  apply ends_bind (ends_and (run_keeps (.pushBack i src) sound trivial)
    (run_effect (.pushBack i src) sound trivial))
  rintro world ⟨kept, effect⟩
  apply passes_of (.enter (.buffer i) ((sourceBytes src).map view)) kept placed
  · rw [State.held, effect, held_buffer, Function.comp_update, List.map_append]
    rfl
  · exact List.map_append
  · exact (List.append_nil _).symm

theorem arrive_passes {connection : Nat} {bytes : List Byte} (sound : Sound born s.world)
    (placed : (RelayOp.arrive connection bytes).Placed chain) :
    Ends allocFails ((RelayOp.arrive connection bytes).run s) (Passes born chain view s) := by
  rw [RelayOp.run, ends_ok]
  refine passes_of (.enter (.wire connection) (bytes.map view)) sound placed ?_ ?_ ?_
  · rw [State.held, held_wire, Function.comp_update, List.map_append]
    rfl
  · exact List.map_append
  · exact (List.append_nil _).symm

theorem transfer_passes {i j : Fin k} {n : Nat} (sound : Sound born s.world)
    (distinct : chain.Nodup) (placed : (RelayOp.transfer i j n).Placed chain) :
    Ends allocFails ((RelayOp.transfer i j n).run s) (Passes born chain view s) := by
  have apart : i ≠ j := by
    obtain ⟨front, back, rfl⟩ := placed
    rintro rfl
    have tail := List.nodup_cons.mp (List.nodup_append.mp distinct).2.1
    exact tail.1 (List.mem_cons_self ..)
  have moves := front_to_back_effect apart n sound
  apply ends_bind (ends_and (ends_mono moves out_of_memory_fails (fun _ effect => effect))
    (run_keeps (.frontToBack i j n) sound trivial))
  rintro world ⟨effect, kept⟩
  apply passes_of (.pass (.buffer i) (.buffer j) n) kept placed
  · rw [State.held, effect, held_buffer, held_buffer, Function.comp_update, Function.comp_update,
      List.map_append, List.map_drop, List.map_take]
    rfl
  · exact (List.append_nil _).symm
  · exact (List.append_nil _).symm

theorem send_passes {i : Fin k} {connection : Nat} {results : List WriteResult}
    (sound : Sound born s.world) (placed : (RelayOp.send i connection results).Placed chain)
    (looks : Looks view s (.send i connection results)) :
    Ends allocFails ((RelayOp.send i connection results).run s) (Passes born chain view s) := by
  apply ends_bind (ends_returned (ends_total
    (drain_buffer_spec results (sound.rep i) (owns_buf_split sound))))
  rintro done ⟨drains, drained⟩
  have kept := ends_value (run_keeps (.drain i results) sound trivial) (drain_runs drained)
  have effect := serves_contents drains.serves
  have taken := looks.2 i connection results rfl done drained
  apply passes_of (.pass (.buffer i) (.wire connection) done.accepted.length) kept placed
  · rw [State.held, effect, held_wire, held_buffer, Function.comp_update, Function.comp_update,
      List.map_append, List.map_drop, taken, List.map_take]
    rfl
  · exact (List.append_nil _).symm
  · exact (List.append_nil _).symm

theorem receive_passes {i : Fin k} {connection : Nat} {results : List ReadResult}
    (sound : Sound born s.world) (placed : (RelayOp.receive connection i results).Placed chain)
    (delivers : (RelayOp.receive connection i results).Delivers s) :
    Ends allocFails ((RelayOp.receive connection i results).run s) (Passes born chain view s) := by
  have fills := fill_buffer_serves results (sound.rep i) (owns_buf_split sound)
  apply ends_bind (ends_returned (ends_mono fills out_of_memory_fails (fun _ served => served)))
  rintro done ⟨serves, filled⟩
  have kept := ends_value (run_keeps (.fill i results) sound trivial) (fill_runs filled)
  have effect := serves_contents serves
  have first : done.delivered = (s.wires connection).take done.delivered.length :=
    List.prefix_iff_eq_take.mp (delivers done filled)
  have taken : done.delivered.map view =
      ((s.wires connection).map view).take done.delivered.length := by
    rw [← List.map_take, ← first]
  have apart : Stage.wire connection ≠ Stage.buffer i := by
    intro equal
    cases equal
  apply passes_of (.pass (.wire connection) (.buffer i) done.delivered.length) kept placed
  · rw [State.held, effect, held_wire, held_buffer, Function.comp_update, Function.comp_update,
      List.map_append, List.map_drop, Function.update_comm apart.symm, taken]
    rfl
  · exact (List.append_nil _).symm
  · exact (List.append_nil _).symm

theorem pop_passes {i : Fin k} {size : Nat} (sound : Sound born s.world)
    (placed : (RelayOp.pop i size).Placed chain) (admissible : (RelayOp.pop i size).Admissible s) :
    Ends allocFails ((RelayOp.pop i size).run s) (Passes born chain view s) := by
  apply ends_bind (ends_returned (ends_total
    (pop_front_into_serves size (sound.rep i) (owns_buf_split sound) admissible)))
  rintro popped ⟨⟨_, first, serves⟩, pops⟩
  have kept := ends_value (run_keeps (.popFrontInto i size) sound admissible) (pop_runs pops)
  have effect := serves_contents serves
  apply passes_of (.leave (.buffer i) popped.count) kept placed
  · rw [State.held, effect, held_buffer, Function.comp_update, List.map_drop]
    rfl
  · exact (List.append_nil _).symm
  · rw [first, List.map_append, List.map_take]
    rfl

theorem depart_passes {connection count : Nat} (sound : Sound born s.world)
    (placed : (RelayOp.depart connection count).Placed chain) :
    Ends allocFails ((RelayOp.depart connection count).run s) (Passes born chain view s) := by
  rw [RelayOp.run, ends_ok]
  refine passes_of (.leave (.wire connection) count) sound placed ?_ ?_ ?_
  · rw [State.held, held_wire, Function.comp_update, List.map_drop]
    rfl
  · exact (List.append_nil _).symm
  · rw [List.map_append, List.map_take]
    rfl

theorem aside_passes {op : BufferOp k} (sound : Sound born s.world)
    (placed : (RelayOp.aside op).Placed chain) (admissible : (RelayOp.aside op).Admissible s) :
    Ends allocFails ((RelayOp.aside op).run s) (Passes born chain view s) := by
  apply ends_bind (ends_and (run_keeps op sound admissible) (run_effect op sound admissible))
  rintro world ⟨kept, effect⟩
  refine ⟨kept, .idle, trivial, ?_, (List.append_nil _).symm, (List.append_nil _).symm⟩
  intro stage listed
  cases stage with
  | buffer j =>
      have away : j ∉ touched op := fun inside => placed j inside listed
      exact congrArg (List.map view) (effect_aside effect away)
  | wire connection =>
      change (s.wires connection).map view = (s.wires connection).map view
      rfl

theorem run_passes (op : RelayOp k) (distinct : chain.Nodup) (sound : Sound born s.world)
    (placed : op.Placed chain) (delivers : op.Delivers s) (looks : Looks view s op) :
    Ends allocFails (op.run s) (Passes born chain view s) := by
  cases op with
  | push i src => exact push_passes sound placed
  | arrive connection bytes => exact arrive_passes sound placed
  | transfer i j n => exact transfer_passes sound distinct placed
  | send i connection results => exact send_passes sound placed looks
  | receive connection i results => exact receive_passes sound placed delivers
  | pop i size => exact pop_passes sound placed looks.1
  | depart connection count => exact depart_passes sound placed
  | aside op => exact aside_passes sound placed looks.1

theorem relay_pipes (distinct : chain.Nodup)
    (reached : ReachableBy (relaySystem chain) (Looks view) s) :
    Sound 0 s.world ∧ Reachable (pipeline chain) (piped view s) := by
  induction reached with
  | @start before begins =>
      obtain ⟨begins, wires, entered, left⟩ := begins
      refine ⟨start_sound begins, .start ⟨?_, ?_, ?_⟩⟩
      · intro stage _
        cases stage with
        | buffer i =>
            have vacant : Vacant (before.world.buf i).cb := by
              have fresh : (before.world.buf i).cb = .fresh := begins.1 i
              rw [fresh]
              exact ⟨rfl, rfl, Nat.zero_le 1⟩
            exact congrArg (List.map view) (vacant_content vacant)
        | wire connection => exact congrArg (List.map view) (wires connection)
      · exact congrArg (List.map view) entered
      · exact congrArg (List.map view) left
  | @next before after op _ looks moves ih =>
      obtain ⟨sound, piped⟩ := ih
      obtain ⟨placed, delivers, ran⟩ := moves
      have passes := ends_value (run_passes op distinct sound placed delivers looks) ran
      obtain ⟨move, moved⟩ := passes.moves
      exact ⟨passes.sound, reachable_next piped moved⟩

end Simulation

section Results
variable {chain : List (Stage k)} {s : State k}

theorem in_flight_map {β : Type} (view : Byte → β) (held : Stage k → List Byte)
    (chain : List (Stage k)) :
    inFlight (List.map view ∘ held) chain = (inFlight held chain).map view := by
  induction chain with
  | nil => rfl
  | cons stage later ih => rw [inFlight, inFlight, ih, List.map_append, Function.comp_apply]

/-- While each accepting `write(2)` of the chain is made at a block start, the relay
keeps the stream: what left, followed by what the chain holds from its end to its
start, is what entered, whatever else the pool is used for. -/
theorem relay_keeps_stream (distinct : chain.Nodup)
    (reached : ReachableBy (relaySystem chain) RelayOp.Aligned s) :
    s.left ++ inFlight s.held chain = s.entered := by
  have looked : ReachableBy (relaySystem chain) (Looks id) s := by
    induction reached with
    | start begins => exact .start begins
    | @next before after op _ aligned moves ih =>
        refine .next ih ⟨aligned.1, ?_⟩ moves
        intro i connection results same done drained
        have sound := (relay_pipes distinct ih).1
        have drains := ends_value
          (drain_buffer_spec results (sound.rep i) (owns_buf_split sound)) drained
        exact congrArg (List.map id) (drains.exact (aligned.2 i connection results same))
  have accounts := pipeline_accounts distinct (relay_pipes distinct looked).2
  simpa [Accounted, piped, in_flight_map] using accounts

/-- In every run the relay keeps the number of bytes, and all buffers stay sound. -/
theorem relay_keeps_count (distinct : chain.Nodup)
    (reached : ReachableBy (relaySystem chain) RelayOp.Admissible s) :
    s.left.length + (inFlight s.held chain).length = s.entered.length ∧ Sound 0 s.world := by
  -- seen without their values all bytes look alike
  have looked : ReachableBy (relaySystem chain) (Looks (fun _ => ())) s := by
    induction reached with
    | start begins => exact .start begins
    | @next before after op _ admissible moves ih =>
        refine .next ih ⟨admissible, ?_⟩ moves
        intro i connection results same done drained
        have sound := (relay_pipes distinct ih).1
        have drains := ends_value
          (drain_buffer_spec results (sound.rep i) (owns_buf_split sound)) drained
        have reach : done.accepted.length ≤ (contents before.world i).length := drains.reach
        rw [List.map_const', List.map_const', List.length_take, Nat.min_eq_left reach]
  obtain ⟨sound, pipes⟩ := relay_pipes distinct looked
  have accounts := congrArg List.length (pipeline_accounts distinct pipes)
  refine ⟨?_, sound⟩
  simpa [piped, in_flight_map] using accounts

def sampleFirst : Fin 2 := ⟨0, Nat.two_pos⟩

def sampleLast : Fin 2 := ⟨1, by decide⟩

def sampleChain : List (Stage 2) := [.buffer sampleFirst, .wire 0, .buffer sampleLast]

def sampleRelay : State 2 := ⟨sampleStart, fun _ => [], [], []⟩

def sampleQueued : State 2 := ⟨samplePushed, fun _ => [], [1, 2], []⟩

def sampleSent (accepted : List Byte) : State 2 :=
  ⟨samplePushed.set sampleFirst ⟨{ samplePushed.mem with container := [0], size := 1 }, .fresh⟩,
    Function.update (fun _ => []) 0 accepted, [1, 2], []⟩

theorem sample_relay_starts : (relaySystem sampleChain).init sampleRelay :=
  ⟨⟨fun _ => rfl, initial_owns _ _⟩, fun _ => rfl, rfl, rfl⟩

theorem sample_relay_queues : (relaySystem sampleChain).step sampleRelay
    (.push sampleFirst (some ⟨[1, 2], by decide⟩)) sampleQueued := by
  refine ⟨⟨_, rfl⟩, trivial, ?_⟩
  with_unfolding_all rfl

/-- One call that takes both bytes. -/
theorem relay_keeps_stream_at_once :
    (sampleSent [1, 2]).left ++ inFlight (sampleSent [1, 2]).held sampleChain =
      (sampleSent [1, 2]).entered := by
  have sends : (relaySystem sampleChain).step sampleQueued (.send sampleFirst 0 [.accepted 1])
      (sampleSent [1, 2]) := by
    refine ⟨⟨[], [.buffer sampleLast], rfl⟩, trivial, ?_⟩
    with_unfolding_all rfl
  have queued : RelayOp.Aligned sampleRelay (.push sampleFirst (some ⟨[1, 2], by decide⟩)) := by
    refine ⟨trivial, ?_⟩
    rintro i connection results ⟨⟩
  have aligned : RelayOp.Aligned sampleQueued (.send sampleFirst 0 [.accepted 1]) := by
    refine ⟨trivial, ?_⟩
    rintro i connection results ⟨rfl, rfl, rfl⟩
    unfold BlockStarts
    decide +kernel
  exact relay_keeps_stream (by decide)
    (.next (.next (.start sample_relay_starts) queued sample_relay_queues) aligned sends)

/-- Two calls that take one byte each: the first byte is sent twice, the number of
bytes stays right. -/
theorem relay_keeps_count_in_parts :
    (sampleSent [1, 1]).left.length + (inFlight (sampleSent [1, 1]).held sampleChain).length =
      (sampleSent [1, 1]).entered.length ∧ Sound 0 (sampleSent [1, 1]).world := by
  have sends : (relaySystem sampleChain).step sampleQueued
      (.send sampleFirst 0 [.accepted 0, .accepted 0]) (sampleSent [1, 1]) := by
    refine ⟨⟨[], [.buffer sampleLast], rfl⟩, trivial, ?_⟩
    with_unfolding_all rfl
  have queued : RelayOp.Admissible sampleRelay (.push sampleFirst (some ⟨[1, 2], by decide⟩)) :=
    trivial
  have sent : RelayOp.Admissible sampleQueued (.send sampleFirst 0 [.accepted 0, .accepted 0]) :=
    trivial
  exact relay_keeps_count (by decide)
    (.next (.next (.start sample_relay_starts) queued sample_relay_queues) sent sends)

end Results

end Npoller.Relay
