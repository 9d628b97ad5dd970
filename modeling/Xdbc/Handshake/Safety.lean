import Xdbc.Handshake.Protocol

/-!
# What holds throughout the handshake

`Inv` is what every action keeps. It has one part for the base connection (`Base`), where what the
server has read and what is still to be read is what the client has written, and one for each pair
of a send and a receive thread (`Link`).

A receive thread is started after the server's line has been read, and the line is written after all
send threads have been heard from, so there is somebody at every port: no receive thread that has a
send thread is turned away, and every send thread is paired with the receive thread of its number
(`paired_of_reachable`). What the server takes for the name of the table and for the schema is what
the client has sent, if a size fits into 32 bits (`requested_iff`).
-/

namespace Xdbc.Handshake

open Bytes Function

/-! ### Stages -/

section Stages

variable (n : ℕ)

/-- The number of send threads that have been started. -/
def Serve.sends : Serve → ℕ
  | .startSend i => i
  | .awaitReady _ _ => n
  | .writeReady => n
  | .join => n
  | _ => 0

/-- The number of send threads that have been heard from. -/
def Serve.heard : Serve → ℕ
  | .awaitReady acc _ => acc
  | .writeReady => n
  | .join => n
  | _ => 0

/-- What holds of the local variables of `serve`. -/
def Serve.Bounded : Serve → Prop
  | .readTableName dataSize => dataSize < 2 ^ 32
  | .readSchema dataSize => dataSize < 2 ^ 32
  | .startSend i => i ≤ n
  | .awaitReady acc q => acc ≤ n ∧ q = acc % n
  | _ => True

/-- What holds of the local variables of `startReceiving`. -/
def Init.Bounded : Init → Prop
  | .startReceive i => i ≤ n
  | _ => True

/-- The base connection has been accepted. -/
def Serve.Accepted : Serve → Prop
  | .listen => False
  | .accept => False
  | _ => True

/-- The acceptor has been opened. -/
def Send.Listens : Send → Prop
  | .absent => False
  | .listen => False
  | _ => True

/-- The thread has signalled. -/
def Send.Signalled : Send → Prop
  | .accept => True
  | .readId _ => True
  | .sending _ _ => True
  | _ => False

/-- The thread has accepted a connection. -/
def Send.Accepted : Send → Prop
  | .readId _ => True
  | .sending _ _ => True
  | _ => False

/-- The thread has read the number of its receive thread. -/
def Send.Paired : Send → Prop
  | .sending _ _ => True
  | _ => False

/-- The base socket is connected. -/
def Init.Connected : Init → Prop
  | .connect _ => False
  | .thrown => False
  | _ => True

/-- The server's line has been read. -/
def Init.Told : Init → Prop
  | .startReceive _ => True
  | .started => True
  | _ => False

/-- The number of receive threads that have been started. -/
def Init.receives : Init → ℕ
  | .startReceive i => i
  | .started => n
  | _ => 0

/-- The socket is connected. -/
def Receive.Connected : Receive → Prop
  | .writeId => True
  | .receiving => True
  | _ => False

instance (x : Send) : Decidable x.Listens := by unfold Send.Listens; split <;> infer_instance
instance (x : Send) : Decidable x.Signalled := by unfold Send.Signalled; split <;> infer_instance
instance (x : Send) : Decidable x.Accepted := by unfold Send.Accepted; split <;> infer_instance
instance (x : Send) : Decidable x.Paired := by unfold Send.Paired; split <;> infer_instance
instance (x : Init) : Decidable x.Connected := by unfold Init.Connected; split <;> infer_instance
instance (x : Init) : Decidable x.Told := by unfold Init.Told; split <;> infer_instance
instance (x : Receive) : Decidable x.Connected := by
  unfold Receive.Connected; split <;> infer_instance

end Stages

/-! ### The invariant -/

section Invariant

variable (setup : Setup)

/-- What the client has written to its base socket. -/
def written : Init → List UInt8
  | .connect _ => []
  | .writeTableName => []
  | .thrown => []
  | .writeSchema => sized setup.tableName
  | _ => sized setup.tableName ++ sized setup.schemaJSON

/-- What the server has read from it. -/
def consumed (tableName schemaJSON : List UInt8) : Serve → List UInt8
  | .listen => []
  | .accept => []
  | .readTableNameSize => []
  | .readTableName dataSize => leBytes 4 dataSize
  | .readSchemaSize => sized tableName
  | .readSchema dataSize => sized tableName ++ leBytes 4 dataSize
  | _ => sized tableName ++ sized schemaJSON

/-- The connections that wait at the base port. -/
def baseBacklog (init : Init) : Serve → Option (List Conn)
  | .listen => none
  | .accept => some (if init.Connected then [.base] else [])
  | _ => some []

/-- What holds of the base connection. -/
structure Base (s : State) : Prop where
  bounded : s.serve.Bounded setup.senv.networkParallelism
  init_bounded : s.init.Bounded setup.cenv.rcvParallelism
  socket : s.baseSocket = .base
  port : s.init.Connected → setup.serverPort = basePort
  acceptor : s.acceptors basePort = baseBacklog s.init s.serve
  connected : s.serve.Accepted → s.init.Connected
  listens : s.init.Connected → s.serve ≠ .listen
  sizes : s.tableName.length < 2 ^ 32 ∧ s.schemaJSON.length < 2 ^ 32
  stream : consumed s.tableName s.schemaJSON s.serve ++ s.toServer .base = written setup s.init
  reply : s.toClient = if s.serve = .join ∧ ¬ s.init.Told then serverReady else []
  told : s.init.Told → s.serve = .join

/-- What holds of send thread `thr` and receive thread `thr`. -/
structure Link (thr : ℕ) (s : State) : Prop where
  sender : s.send thr = .absent ↔ s.serve.sends setup.senv.networkParallelism ≤ thr
  receiver : s.receive thr = .absent ↔ s.init.receives setup.cenv.rcvParallelism ≤ thr
  heard : thr < s.serve.heard setup.senv.networkParallelism → (s.send thr).Signalled
  signal : s.sendThreadReady thr = if (s.send thr).Signalled ∧
    s.serve.heard setup.senv.networkParallelism ≤ thr then [1] else []
  acceptor : s.acceptors (basePort + thr + 1) = if (s.send thr).Listens then
    some (if (s.receive thr).Connected ∧ ¬ (s.send thr).Accepted then [.rcv thr] else []) else none
  reached : (s.receive thr).Connected → (s.send thr).Listens
  accepted : (s.send thr).Accepted → (s.receive thr).Connected
  socket : ∀ c, s.send thr = .readId c → c = .rcv thr
  paired : ∀ c id, s.send thr = .sending c id →
    c = .rcv thr ∧ id = printNat thr ∧ s.receive thr = .receiving
  line : s.toServer (.rcv thr) =
    if s.receive thr = .receiving ∧ ¬ (s.send thr).Paired then idLine thr else []
  refused : s.receive thr = .unconnected → setup.senv.networkParallelism ≤ thr

/-- What holds in every state of the handshake. -/
structure Inv (s : State) : Prop where
  base : Base setup s
  link : ∀ thr, Link setup thr s
  low : ∀ port < basePort, s.acceptors port = none

end Invariant

section Steps

variable {setup : Setup} {s s' : State} {thr : ℕ}

/-- What does not concern the two threads of a number keeps what holds of them. -/
theorem Link.congr (h : Link setup thr s) (h_send : s'.send thr = s.send thr)
    (h_receive : s'.receive thr = s.receive thr)
    (h_signal : s'.sendThreadReady thr = s.sendThreadReady thr)
    (h_acceptor : s'.acceptors (basePort + thr + 1) = s.acceptors (basePort + thr + 1))
    (h_line : s'.toServer (.rcv thr) = s.toServer (.rcv thr))
    (h_started : s'.serve.sends setup.senv.networkParallelism ≤ thr ↔
      s.serve.sends setup.senv.networkParallelism ≤ thr)
    (h_heard : s'.serve.heard setup.senv.networkParallelism ≤ thr ↔
      s.serve.heard setup.senv.networkParallelism ≤ thr)
    (h_init : s'.init.receives setup.cenv.rcvParallelism ≤ thr ↔
      s.init.receives setup.cenv.rcvParallelism ≤ thr) : Link setup thr s' where
  sender := by rw [h_send, h_started]; exact h.sender
  receiver := by rw [h_receive, h_init]; exact h.receiver
  heard := by rw [h_send, ← not_le, h_heard, not_le]; exact h.heard
  signal := by rw [h_send, h_signal, h.signal]; simp only [h_heard]
  acceptor := by rw [h_send, h_receive, h_acceptor, h.acceptor]
  reached := by rw [h_send, h_receive]; exact h.reached
  accepted := by rw [h_send, h_receive]; exact h.accepted
  socket := by rw [h_send]; exact h.socket
  paired := by rw [h_send, h_receive]; exact h.paired
  line := by rw [h_send, h_receive, h_line, h.line]
  refused := by rw [h_receive]; exact h.refused

/-- What does not concern the base connection keeps what holds of it. -/
theorem Base.congr (h : Base setup s) (h_serve : s'.serve = s.serve) (h_init : s'.init = s.init)
    (h_socket : s'.baseSocket = s.baseSocket) (h_table : s'.tableName = s.tableName)
    (h_schema : s'.schemaJSON = s.schemaJSON)
    (h_acceptor : s'.acceptors basePort = s.acceptors basePort)
    (h_stream : s'.toServer .base = s.toServer .base) (h_reply : s'.toClient = s.toClient) :
    Base setup s' := by
  obtain ⟨h_bounded, h_loop, h_base, h_port, h_backlog, h_connected, h_listens, h_sizes, h_written,
    h_told⟩ := h
  rw [← h_serve, ← h_init, ← h_table, ← h_schema, ← h_stream] at *
  constructor <;> simp_all

/-- Before the line is written there is none, and the client has not read it. -/
theorem Base.before (h : Base setup s) (h_before : s.serve ≠ .join) :
    s.toClient = [] ∧ ¬ s.init.Told :=
  ⟨by rw [h.reply, if_neg fun h_and => h_before h_and.1], fun h_told => h_before (h.told h_told)⟩

/-- The server has accepted the base connection and goes on. -/
theorem Base.advance (h : Base setup s) (h_old : s.serve.Accepted) (h_new : s'.serve.Accepted)
    (h_bounded : s'.serve.Bounded setup.senv.networkParallelism)
    (h_before : s.serve ≠ .join) (h_after : s'.serve ≠ .join) (h_init : s'.init = s.init)
    (h_socket : s'.baseSocket = s.baseSocket)
    (h_acceptor : s'.acceptors basePort = s.acceptors basePort) (h_reply : s'.toClient = s.toClient)
    (h_sizes : s'.tableName.length < 2 ^ 32 ∧ s'.schemaJSON.length < 2 ^ 32)
    (h_stream : consumed s'.tableName s'.schemaJSON s'.serve ++ s'.toServer .base
      = consumed s.tableName s.schemaJSON s.serve ++ s.toServer .base) : Base setup s' := by
  -- once the server has accepted, nobody waits at the base port
  have h_backlog : ∀ x : Serve, x.Accepted → baseBacklog s.init x = some [] := by
    intro x hx
    cases x <;> first | rfl | exact hx.elim
  obtain ⟨h_quiet, h_untold⟩ := h.before h_before
  refine ⟨h_bounded, h_init ▸ h.init_bounded, h_socket.trans h.socket, h_init ▸ h.port, ?_, ?_, ?_,
    h_sizes, ?_, ?_, ?_⟩
  · rw [h_acceptor, h.acceptor, h_init, h_backlog _ h_old, h_backlog _ h_new]
  · exact fun _ => h_init ▸ h.connected h_old
  · rintro - h_listen
    rw [h_listen] at h_new
    exact h_new
  · rw [h_stream, h.stream, h_init]
  · rw [h_reply, h_quiet, if_neg (fun h_and => h_after h_and.1)]
  · exact fun h_told => absurd (h_init ▸ h_told) h_untold

/-- What `read` takes is the beginning of what there is. -/
theorem State.read_eq {c : Conn} {k : ℕ} {r : List UInt8 × State} (h : s.read c k = some r) :
    r.1.length = k ∧ ∃ rest, s.toServer c = r.1 ++ rest ∧
      r.2 = { s with toServer := update s.toServer c rest } := by
  unfold read at h
  split at h
  · next h_le =>
    cases h
    exact ⟨List.length_take_of_le h_le, _, (List.take_append_drop k _).symm, rfl⟩
  · cases h

/-- What is accepted is the connection that waits in front. -/
theorem State.accept_eq {port : ℕ} {r : Conn × State} (h : s.accept port = some r) :
    ∃ waiting, s.acceptors port = some (r.1 :: waiting) ∧
      r.2 = { s with acceptors := update s.acceptors port (some waiting) } := by
  unfold accept at h
  split at h
  · next c waiting h_some =>
    cases h
    exact ⟨waiting, h_some, rfl⟩
  · cases h

/-- The buffer takes all there is. -/
theorem State.readLine_eq {c : Conn} {r : List UInt8 × State} (h : s.readLine c = some r) :
    newline ∈ s.toServer c ∧ s.toServer c = r.1 ∧
      r.2 = { s with toServer := update s.toServer c [] } := by
  unfold readLine at h
  split at h
  · next h_mem =>
    cases h
    exact ⟨h_mem, rfl, rfl⟩
  · cases h

/-- The digits are left of the line. -/
theorem filter_idLine (thr : ℕ) : (idLine thr).filter (· ≠ newline) = printNat thr := by
  have h_digits : ∀ b ∈ printNat thr, b ≠ newline := by
    rintro b hb rfl
    exact absurd (printNat_isDigit thr newline hb) (by decide)
  rw [idLine, List.filter_append,
    List.filter_eq_self.mpr fun b hb => decide_eq_true (h_digits b hb)]
  exact List.append_nil _

/-- The port of a send thread is not the base port. -/
theorem port_ne (thr : ℕ) : basePort + thr + 1 ≠ basePort := by omega

/-- The ports of two send threads differ. -/
theorem port_ne_port {thr thr' : ℕ} (h : thr ≠ thr') :
    basePort + thr + 1 ≠ basePort + thr' + 1 := by
  omega

/-! ### The server -/

/-- The server reads from the base connection and goes on. -/
theorem Inv.read (h : Inv setup s) {bytes rest : List UInt8}
    (h_rest : s.toServer .base = bytes ++ rest) (stage : Serve) (tableName schemaJSON : List UInt8)
    (h_old : s.serve.Accepted) (h_new : stage.Accepted)
    (h_bounded : stage.Bounded setup.senv.networkParallelism)
    (h_before : s.serve ≠ .join) (h_after : stage ≠ .join)
    (h_sends : stage.sends setup.senv.networkParallelism
      = s.serve.sends setup.senv.networkParallelism)
    (h_heard : stage.heard setup.senv.networkParallelism
      = s.serve.heard setup.senv.networkParallelism)
    (h_sizes : tableName.length < 2 ^ 32 ∧ schemaJSON.length < 2 ^ 32)
    (h_stream : consumed tableName schemaJSON stage
      = consumed s.tableName s.schemaJSON s.serve ++ bytes) :
    Inv setup { s with
      toServer := update s.toServer .base rest
      serve := stage
      tableName := tableName
      schemaJSON := schemaJSON } := by
  obtain ⟨h_base, h_link, h_low⟩ := h
  refine ⟨h_base.advance h_old h_new h_bounded h_before h_after rfl rfl rfl rfl h_sizes ?_,
    fun thr => (h_link thr).congr rfl rfl rfl rfl rfl (by rw [h_sends]) (by rw [h_heard]) Iff.rfl,
    h_low⟩
  dsimp only
  rw [update_self, h_stream, h_rest, List.append_assoc]

/-- The acceptor of the base port is opened. -/
theorem Inv.serve_listen (h : Inv setup s) (h_stage : s.serve = .listen) :
    Inv setup { s.listen basePort with serve := .accept } := by
  obtain ⟨h_base, h_link, h_low⟩ := h
  have h_before : s.serve ≠ .join := by rw [h_stage]; exact fun h => by cases h
  obtain ⟨h_quiet, h_untold⟩ := h_base.before h_before
  have h_apart : ¬ s.init.Connected := fun h_connected => h_base.listens h_connected h_stage
  have h_stream := h_base.stream
  rw [h_stage] at h_stream
  refine ⟨⟨trivial, h_base.init_bounded, h_base.socket, h_base.port, ?_, False.elim,
    fun h_connected => absurd h_connected h_apart, h_base.sizes, h_stream, h_quiet.trans ?_,
    fun h_told => absurd h_told h_untold⟩, fun thr => (h_link thr).congr rfl rfl rfl ?_ rfl ?_ ?_
    Iff.rfl, fun port h_lt => ?_⟩
  · simp [State.listen, baseBacklog, h_apart]
  · rw [if_neg fun h_and => by cases h_and.1]
  · exact update_of_ne (port_ne thr) _ _
  · rw [h_stage]; rfl
  · rw [h_stage]; rfl
  · exact (update_of_ne h_lt.ne _ _).trans (h_low port h_lt)

/-- The base connection is accepted. -/
theorem Inv.serve_accept (h : Inv setup s) (h_stage : s.serve = .accept) {r : Conn × State}
    (h_accept : s.accept basePort = some r) :
    Inv setup { r.2 with serve := .readTableNameSize, baseSocket := r.1 } := by
  obtain ⟨c, s₁⟩ := r
  obtain ⟨waiting, h_some, rfl⟩ := State.accept_eq h_accept
  obtain ⟨h_base, h_link, h_low⟩ := h
  have h_before : s.serve ≠ .join := by rw [h_stage]; exact fun h => by cases h
  obtain ⟨h_quiet, h_untold⟩ := h_base.before h_before
  have h_stream := h_base.stream
  have h_backlog := h_base.acceptor
  rw [h_stage] at h_stream h_backlog
  -- only the client's base socket can be there
  have h_connected : s.init.Connected := by
    by_contra h_apart
    rw [h_some, baseBacklog, if_neg h_apart] at h_backlog
    cases h_backlog
  rw [h_some, baseBacklog, if_pos h_connected] at h_backlog
  obtain ⟨rfl, rfl⟩ := List.cons.inj (Option.some.inj h_backlog)
  refine ⟨⟨trivial, h_base.init_bounded, rfl, h_base.port, ?_, fun _ => h_connected,
    (fun _ h => by cases h), h_base.sizes, h_stream, h_quiet.trans ?_,
    fun h_told => absurd h_told h_untold⟩, fun thr => (h_link thr).congr rfl rfl rfl ?_ rfl ?_ ?_
    Iff.rfl, fun port h_lt => ?_⟩
  · simp [baseBacklog]
  · rw [if_neg fun h_and => by cases h_and.1]
  · exact update_of_ne (port_ne thr) _ _
  · rw [h_stage]; rfl
  · rw [h_stage]; rfl
  · exact (update_of_ne h_lt.ne _ _).trans (h_low port h_lt)

/-- A send thread is started. -/
theorem Inv.serve_start (h : Inv setup s) {i : ℕ} (h_stage : s.serve = .startSend i)
    (h_lt : i < setup.senv.networkParallelism) :
    Inv setup { s with serve := .startSend (i + 1), send := update s.send i .listen } := by
  obtain ⟨h_base, h_link, h_low⟩ := h
  refine ⟨h_base.advance (h_stage ▸ trivial) trivial h_lt ?_ (fun h => by cases h) rfl rfl rfl rfl
    h_base.sizes ?_, fun thr => ?_, h_low⟩
  · rw [h_stage]; exact fun h => by cases h
  · rw [h_stage]; rfl
  -- the new thread has done nothing, all others are as they were
  by_cases h_eq : thr = i
  · subst h_eq
    obtain ⟨h_sender, h_receiver, -, h_signal, h_acceptor, h_reached, -, -, -, h_line, h_refused⟩ :=
      h_link thr
    have h_absent : s.send thr = .absent := h_sender.mpr (by rw [h_stage]; exact le_rfl)
    rw [h_absent] at h_signal h_acceptor h_reached h_line
    constructor <;> simp_all [Serve.sends, Serve.heard, Send.Signalled, Send.Listens,
      Send.Accepted, Send.Paired]
  · refine (h_link thr).congr (update_of_ne h_eq _ _) rfl rfl rfl rfl ?_ ?_ Iff.rfl
    · rw [h_stage]
      simp only [Serve.sends]
      omega
    · rw [h_stage]; rfl

/-- The queues are emptied in turn, and each holds one signal. -/
theorem Inv.signal_eq (h : Inv setup s) {acc q x : ℕ} {xs : List ℕ}
    (h_stage : s.serve = .awaitReady acc q) (h_ne : acc ≠ setup.senv.networkParallelism)
    (h_ready : s.sendThreadReady q = x :: xs) :
    acc < setup.senv.networkParallelism ∧ q = acc ∧ x = 1 ∧ xs = [] ∧ (s.send acc).Signalled := by
  have h_bounded := h.base.bounded
  rw [h_stage] at h_bounded
  obtain ⟨h_le, h_turn⟩ := h_bounded
  have h_lt := lt_of_le_of_ne h_le h_ne
  -- `serve` listens to the threads in turn, and this one has signalled at most once
  rw [Nat.mod_eq_of_lt h_lt] at h_turn
  subst h_turn
  have h_signal := (h.link q).signal
  rw [h_ready, h_stage] at h_signal
  simp only [Serve.heard, le_refl, and_true] at h_signal
  have h_signalled : (s.send q).Signalled := by
    by_contra h_not
    rw [if_neg h_not] at h_signal
    cases h_signal
  rw [if_pos h_signalled] at h_signal
  obtain ⟨h_one, h_rest⟩ := List.cons.inj h_signal
  exact ⟨h_lt, rfl, h_one, h_rest, h_signalled⟩

/-- The server has heard from a send thread. -/
theorem Inv.serve_hear (h : Inv setup s) {acc q x : ℕ} {xs : List ℕ}
    (h_stage : s.serve = .awaitReady acc q) (h_ne : acc ≠ setup.senv.networkParallelism)
    (h_ready : s.sendThreadReady q = x :: xs) :
    Inv setup { s with
      serve := .awaitReady (acc + x) ((q + 1) % setup.senv.networkParallelism)
      sendThreadReady := update s.sendThreadReady q xs } := by
  obtain ⟨h_lt, rfl, rfl, rfl, h_signalled⟩ := h.signal_eq h_stage h_ne h_ready
  obtain ⟨h_base, h_link, h_low⟩ := h
  refine ⟨h_base.advance (h_stage ▸ trivial) trivial ⟨?_, ?_⟩ ?_ (fun h => by cases h) rfl rfl rfl
    rfl h_base.sizes ?_, fun thr => ?_, h_low⟩
  · exact h_lt
  · rfl
  · rw [h_stage]; exact fun h => by cases h
  · rw [h_stage]; rfl
  -- only the thread that was heard is told apart
  by_cases h_eq : thr = q
  · subst h_eq
    obtain ⟨h_sender, h_receiver, -, -, h_acceptor, h_reached, h_accepted, h_socket, h_paired,
      h_line, h_refused⟩ := h_link thr
    rw [h_stage] at h_sender
    exact ⟨h_sender, h_receiver, fun _ => h_signalled, by simp [Serve.heard], h_acceptor, h_reached,
      h_accepted, h_socket, h_paired, h_line, h_refused⟩
  · refine (h_link thr).congr rfl rfl (update_of_ne h_eq _ _) rfl rfl ?_ ?_ Iff.rfl
    · rw [h_stage]; rfl
    · rw [h_stage]
      simp only [Serve.heard]
      omega

/-- **Step lemma** for the thread of `serve`. -/
theorem Inv.serve (h : Inv setup s) (h_act : Handshake.serve setup s = some s') :
    Inv setup s' := by
  unfold Handshake.serve at h_act
  have h_bounded := h.base.bounded
  have h_sizes := h.base.sizes
  rcases h_stage : s.serve with _ | _ | _ | k | _ | k | i | ⟨acc, q⟩ | _ | _ <;>
    rw [h_stage] at h_act h_bounded <;> dsimp only at h_act
  -- the port is opened, then a connection is taken from the backlog
  case listen =>
    cases h_act
    exact h.serve_listen h_stage
  case accept =>
    obtain ⟨r, h_accept, rfl⟩ := Option.map_eq_some_iff.mp h_act
    exact h.serve_accept h_stage h_accept
  -- the four reads: each takes off the stream what the fields before it announced
  case readTableNameSize =>
    obtain ⟨⟨bytes, s₁⟩, h_read, rfl⟩ := Option.map_eq_some_iff.mp h_act
    rw [h.base.socket] at h_read
    obtain ⟨h_length, rest, h_rest, rfl⟩ := State.read_eq h_read
    have h_lt := ofLeBytes_lt bytes
    have h_bytes := leBytes_ofLeBytes bytes
    rw [h_length] at h_lt h_bytes
    exact h.read h_rest (.readTableName (ofLeBytes bytes)) s.tableName s.schemaJSON
      (h_stage ▸ trivial) trivial h_lt (by rw [h_stage]; exact fun h => by cases h)
      (fun h => by cases h) (by rw [h_stage]; rfl) (by rw [h_stage]; rfl) h_sizes
      (by rw [h_stage]; exact h_bytes)
  case readTableName =>
    obtain ⟨⟨bytes, s₁⟩, h_read, rfl⟩ := Option.map_eq_some_iff.mp h_act
    rw [h.base.socket] at h_read
    obtain ⟨rfl, rest, h_rest, rfl⟩ := State.read_eq h_read
    exact h.read h_rest .readSchemaSize bytes s.schemaJSON
      (h_stage ▸ trivial) trivial trivial (by rw [h_stage]; exact fun h => by cases h)
      (fun h => by cases h) (by rw [h_stage]; rfl) (by rw [h_stage]; rfl) ⟨h_bounded, h_sizes.2⟩
      (by rw [h_stage]; rfl)
  case readSchemaSize =>
    obtain ⟨⟨bytes, s₁⟩, h_read, rfl⟩ := Option.map_eq_some_iff.mp h_act
    rw [h.base.socket] at h_read
    obtain ⟨h_length, rest, h_rest, rfl⟩ := State.read_eq h_read
    have h_lt := ofLeBytes_lt bytes
    have h_bytes := leBytes_ofLeBytes bytes
    rw [h_length] at h_lt h_bytes
    exact h.read h_rest (.readSchema (ofLeBytes bytes)) s.tableName s.schemaJSON
      (h_stage ▸ trivial) trivial h_lt (by rw [h_stage]; exact fun h => by cases h)
      (fun h => by cases h) (by rw [h_stage]; rfl) (by rw [h_stage]; rfl) h_sizes
      (by rw [h_stage]; exact congrArg (sized s.tableName ++ ·) h_bytes)
  case readSchema =>
    obtain ⟨⟨bytes, s₁⟩, h_read, rfl⟩ := Option.map_eq_some_iff.mp h_act
    rw [h.base.socket] at h_read
    obtain ⟨rfl, rest, h_rest, rfl⟩ := State.read_eq h_read
    exact h.read h_rest (.startSend 0) s.tableName bytes
      (h_stage ▸ trivial) trivial (Nat.zero_le _) (by rw [h_stage]; exact fun h => by cases h)
      (fun h => by cases h) (by rw [h_stage]; rfl) (by rw [h_stage]; rfl) ⟨h_sizes.1, h_bounded⟩
      (by rw [h_stage]; exact (List.append_assoc _ _ _).symm)
  -- one send thread after the other, then the wait for their ports
  case startSend =>
    split at h_act
    · next h_lt =>
      cases h_act
      exact h.serve_start h_stage h_lt
    · next h_not =>
      cases h_act
      have h_all : i = setup.senv.networkParallelism := le_antisymm h_bounded (not_lt.mp h_not)
      refine ⟨h.base.advance (h_stage ▸ trivial) trivial ⟨Nat.zero_le _, (Nat.zero_mod _).symm⟩ ?_
        (fun h => by cases h) rfl rfl rfl rfl h_sizes ?_, fun thr => (h.link thr).congr rfl rfl rfl
        rfl rfl ?_ ?_ Iff.rfl, h.low⟩
      · rw [h_stage]; exact fun h => by cases h
      · rw [h_stage]; rfl
      · rw [h_stage, h_all]; rfl
      · rw [h_stage]; rfl
  -- either all have reported, or one more does
  case awaitReady =>
    split at h_act
    · next h_all =>
      cases h_act
      refine ⟨h.base.advance (h_stage ▸ trivial) trivial trivial ?_ (fun h => by cases h) rfl rfl
        rfl rfl h_sizes ?_, fun thr => (h.link thr).congr rfl rfl rfl rfl rfl ?_ ?_ Iff.rfl, h.low⟩
      · rw [h_stage]; exact fun h => by cases h
      · rw [h_stage]; rfl
      · rw [h_stage]; rfl
      · rw [h_stage, h_all]; rfl
    · next h_ne =>
      split at h_act
      · cases h_act
      · next x xs h_ready =>
        cases h_act
        exact h.serve_hear h_stage h_ne h_ready
  -- the single byte that tells the client it may connect
  case writeReady =>
    cases h_act
    obtain ⟨h_base, h_link, h_low⟩ := h
    have h_before : s.serve ≠ .join := by rw [h_stage]; exact fun h => by cases h
    obtain ⟨h_quiet, h_untold⟩ := h_base.before h_before
    have h_stream := h_base.stream
    have h_backlog := h_base.acceptor
    rw [h_stage] at h_stream h_backlog
    refine ⟨⟨trivial, h_base.init_bounded, h_base.socket, h_base.port, h_backlog,
      fun _ => h_base.connected (h_stage ▸ trivial), (fun _ h => by cases h), h_sizes, h_stream, ?_,
      fun _ => rfl⟩, fun thr => (h_link thr).congr rfl rfl rfl rfl rfl ?_ ?_ Iff.rfl, h_low⟩
    · simp [h_quiet, h_untold]
    · rw [h_stage]; rfl
    · rw [h_stage]; rfl
  case join => cases h_act

/-! ### The send and the receive threads -/

/-- The part of the state that the two threads of a number share is replaced. -/
def State.setLink (s : State) (thr : ℕ) (send : Send) (receive : Receive) (ready : List ℕ)
    (acceptor : Option (List Conn)) (line : List UInt8) : State :=
  { s with
    send := update s.send thr send
    receive := update s.receive thr receive
    sendThreadReady := update s.sendThreadReady thr ready
    acceptors := update s.acceptors (basePort + thr + 1) acceptor
    toServer := update s.toServer (.rcv thr) line }

/-- What is left to show of such a change: the conditions of `Link`, for the new values. -/
theorem Link.setLink {send : Send} {receive : Receive} {ready : List ℕ}
    {acceptor : Option (List Conn)} {line : List UInt8}
    (h_sender : send = .absent ↔ s.serve.sends setup.senv.networkParallelism ≤ thr)
    (h_receiver : receive = .absent ↔ s.init.receives setup.cenv.rcvParallelism ≤ thr)
    (h_heard : thr < s.serve.heard setup.senv.networkParallelism → send.Signalled)
    (h_signal : ready = if send.Signalled ∧ s.serve.heard setup.senv.networkParallelism ≤ thr then
      [1] else [])
    (h_acceptor : acceptor = if send.Listens then
      some (if receive.Connected ∧ ¬ send.Accepted then [.rcv thr] else []) else none)
    (h_reached : receive.Connected → send.Listens)
    (h_accepted : send.Accepted → receive.Connected)
    (h_socket : ∀ c, send = .readId c → c = .rcv thr)
    (h_paired : ∀ c id, send = .sending c id →
      c = .rcv thr ∧ id = printNat thr ∧ receive = .receiving)
    (h_line : line = if receive = .receiving ∧ ¬ send.Paired then idLine thr else [])
    (h_refused : receive = .unconnected → setup.senv.networkParallelism ≤ thr) :
    Link setup thr (s.setLink thr send receive ready acceptor line) := by
  constructor <;> simp only [State.setLink, update_self]
  exacts [h_sender, h_receiver, h_heard, h_signal, h_acceptor, h_reached, h_accepted, h_socket,
    h_paired, h_line, h_refused]

/-- Such a change concerns nobody else. -/
theorem Inv.setLink (h : Inv setup s) (thr : ℕ) (send : Send) (receive : Receive) (ready : List ℕ)
    (acceptor : Option (List Conn)) (line : List UInt8)
    (h_new : Link setup thr (s.setLink thr send receive ready acceptor line)) :
    Inv setup (s.setLink thr send receive ready acceptor line) := by
  obtain ⟨h_base, h_link, h_low⟩ := h
  refine ⟨h_base.congr rfl rfl rfl rfl rfl ?_ ?_ rfl, fun thr' => ?_, fun port h_lt => ?_⟩
  · exact update_of_ne (port_ne thr).symm _ _
  · have h_conn : Conn.base ≠ .rcv thr := fun h => by cases h
    exact update_of_ne h_conn line s.toServer
  · by_cases h_eq : thr' = thr
    · exact h_eq ▸ h_new
    · have h_conn : Conn.rcv thr' ≠ .rcv thr := fun h => h_eq (Conn.rcv.inj h)
      exact (h_link thr').congr (update_of_ne h_eq _ _) (update_of_ne h_eq _ _)
        (update_of_ne h_eq _ _) (update_of_ne (port_ne_port h_eq) _ _) (update_of_ne h_conn _ _)
        Iff.rfl Iff.rfl Iff.rfl
  · refine (update_of_ne ?_ _ _).trans (h_low port h_lt)
    omega

/-- Nobody waits at the port of a send thread but the receive thread of its number. -/
theorem Link.front (h : Link setup thr s) {c : Conn} {waiting : List Conn}
    (h_some : s.acceptors (basePort + thr + 1) = some (c :: waiting)) :
    (s.receive thr).Connected ∧ c = .rcv thr ∧ waiting = [] := by
  have h_acceptor := h.acceptor
  rw [h_some] at h_acceptor
  split at h_acceptor
  · have h_list := Option.some.inj h_acceptor
    split at h_list
    · next h_and =>
      obtain ⟨rfl, rfl⟩ := List.cons.inj h_list
      exact ⟨h_and.1, rfl, rfl⟩
    · cases h_list
  · cases h_acceptor

/-- **Step lemma** for a send thread. -/
theorem Inv.send (h : Inv setup s) (h_act : Handshake.send thr s = some s') : Inv setup s' := by
  obtain ⟨h_sender, h_receiver, h_heard, h_signal, h_acceptor, h_reached, h_accepted, h_socket,
    h_paired, h_line, h_refused⟩ := h.link thr
  unfold Handshake.send at h_act
  rcases h_stage : s.send thr with _ | _ | _ | _ | c | ⟨c, id⟩ <;>
    rw [h_stage] at h_act h_sender h_heard h_signal h_acceptor h_reached h_accepted h_line <;>
    dsimp only at h_act
  case absent => cases h_act
  -- the port of the thread is opened
  case listen =>
    cases h_act
    have h_apart : ¬ (s.receive thr).Connected := h_reached
    have h_new : Link setup thr (s.setLink thr .signalReady (s.receive thr) (s.sendThreadReady thr)
        (some []) (s.toServer (.rcv thr))) := by
      refine Link.setLink (by simpa using h_sender) h_receiver h_heard ?_ ?_ (fun _ => trivial)
        False.elim (fun _ h => by cases h) (fun _ _ h => by cases h) ?_ h_refused
      · exact h_signal.trans (if_congr Iff.rfl rfl rfl)
      · simp only [Send.Listens, h_apart, false_and, if_true, if_false]
      · exact h_line.trans (if_congr Iff.rfl rfl rfl)
    have h_next := h.setLink thr _ _ _ _ _ h_new
    simpa only [State.setLink, State.listen, update_eq_self] using h_next
  -- one entry for the thread of `serve` to hear
  case signalReady =>
    cases h_act
    have h_unheard : s.serve.heard setup.senv.networkParallelism ≤ thr := not_lt.mp h_heard
    rw [if_neg fun h_and => h_and.1] at h_signal
    have h_new : Link setup thr (s.setLink thr .accept (s.receive thr)
        (s.sendThreadReady thr ++ [1]) (s.acceptors (basePort + thr + 1))
        (s.toServer (.rcv thr))) := by
      refine Link.setLink (by simpa using h_sender) h_receiver (fun _ => trivial) ?_ ?_
        (fun _ => trivial) False.elim (fun _ h => by cases h) (fun _ _ h => by cases h) ?_ h_refused
      · simp only [h_signal, Send.Signalled, h_unheard, and_self, if_true, List.nil_append]
      · exact h_acceptor.trans (if_congr Iff.rfl (congrArg some (if_congr Iff.rfl rfl rfl)) rfl)
      · exact h_line.trans (if_congr Iff.rfl rfl rfl)
    have h_next := h.setLink thr _ _ _ _ _ h_new
    simpa only [State.setLink, update_eq_self] using h_next
  -- the connection that waits is that of the receive thread with the same number
  case accept =>
    obtain ⟨⟨c, s₁⟩, h_accept, rfl⟩ := Option.map_eq_some_iff.mp h_act
    obtain ⟨waiting, h_some, rfl⟩ := State.accept_eq h_accept
    obtain ⟨h_connected, rfl, rfl⟩ := (h.link thr).front h_some
    have h_new : Link setup thr (s.setLink thr (.readId (.rcv thr)) (s.receive thr)
        (s.sendThreadReady thr) (some []) (s.toServer (.rcv thr))) := by
      refine Link.setLink (by simpa using h_sender) h_receiver (fun _ => trivial) ?_ ?_
        (fun _ => trivial) (fun _ => h_connected) (fun _ h => (Send.readId.inj h).symm)
        (fun _ _ h => by cases h) ?_ h_refused
      · exact h_signal.trans (if_congr Iff.rfl rfl rfl)
      · simp only [Send.Listens, Send.Accepted, not_true, and_false, if_true, if_false]
      · exact h_line.trans (if_congr Iff.rfl rfl rfl)
    have h_next := h.setLink thr _ _ _ _ _ h_new
    simpa only [State.setLink, update_eq_self] using h_next
  case readId =>
    obtain ⟨⟨bytes, s₁⟩, h_read, rfl⟩ := Option.map_eq_some_iff.mp h_act
    obtain rfl := h_socket c h_stage
    obtain ⟨h_mem, rfl, rfl⟩ := State.readLine_eq h_read
    -- the line is the one the receive thread has written
    have h_receiving : s.receive thr = .receiving := by
      by_contra h_not
      rw [h_line, if_neg fun h_and => h_not h_and.1] at h_mem
      cases h_mem
    rw [if_pos ⟨h_receiving, id⟩] at h_line
    have h_id := filter_idLine thr
    rw [← h_line] at h_id
    have h_new : Link setup thr (s.setLink thr
        (.sending (.rcv thr) ((s.toServer (.rcv thr)).filter (· ≠ newline))) (s.receive thr)
        (s.sendThreadReady thr) (s.acceptors (basePort + thr + 1)) []) := by
      refine Link.setLink (by simpa using h_sender) h_receiver (fun _ => trivial) ?_ ?_
        (fun _ => trivial) (fun _ => h_receiving ▸ trivial) (fun _ h => by cases h)
        (fun _ _ h => ⟨(Send.sending.inj h).1.symm, (Send.sending.inj h).2.symm.trans h_id,
          h_receiving⟩) ?_ h_refused
      · exact h_signal.trans (if_congr Iff.rfl rfl rfl)
      · exact h_acceptor.trans (if_congr Iff.rfl (congrArg some (if_congr Iff.rfl rfl rfl)) rfl)
      · simp only [Send.Paired, not_true, and_false, if_false]
    have h_next := h.setLink thr _ _ _ _ _ h_new
    simpa only [State.setLink, update_eq_self] using h_next
  case sending => cases h_act

/-- A receive thread is started when the line has been read. -/
theorem Link.told (h : Link setup thr s) (h_started : s.receive thr ≠ .absent) : s.init.Told := by
  by_contra h_untold
  refine h_started (h.receiver.mpr ?_)
  cases h_init : s.init <;> rw [h_init] at h_untold <;>
    first | exact Nat.zero_le _ | exact absurd trivial h_untold

/-- When the line has been written, all send threads listen. -/
theorem Link.listens (h : Link setup thr s) (h_join : s.serve = .join)
    (h_lt : thr < setup.senv.networkParallelism) : (s.send thr).Listens := by
  have h_heard := h.heard
  rw [h_join] at h_heard
  have h_signalled := h_heard h_lt
  cases h_send : s.send thr <;> rw [h_send] at h_signalled <;> trivial

/-- **Step lemma** for a receive thread. -/
theorem Inv.receive (h : Inv setup s) (h_act : Handshake.receive setup thr s = some s') :
    Inv setup s' := by
  have h_told := (h.link thr).told
  have h_listens := (h.link thr).listens
  obtain ⟨h_sender, h_receiver, h_heard, h_signal, h_acceptor, h_reached, h_accepted, h_socket,
    h_paired, h_line, h_refused⟩ := h.link thr
  unfold Handshake.receive at h_act
  rcases h_stage : s.receive thr with _ | _ | _ | _ | _ <;>
    rw [h_stage] at h_act h_receiver h_acceptor h_reached h_accepted h_line h_told <;>
    dsimp only at h_act
  case absent => cases h_act
  case connect =>
    have h_told := h_told fun h => by cases h
    -- a thread that still has to connect is nobody's partner
    have h_unpaired : ∀ (c : Conn) (id : List UInt8) (x : Receive), s.send thr = .sending c id →
        c = .rcv thr ∧ id = printNat thr ∧ x = .receiving := by
      intro c id x h_send
      have h_all := h_paired c id h_send
      rw [h_stage] at h_all
      cases h_all.2.2
    have h_connected : s.init.Connected := by
      cases h_init : s.init <;> rw [h_init] at h_told <;> trivial
    rw [h.base.port h_connected] at h_act
    split at h_act
    · next s₁ h_connect =>
      cases h_act
      obtain ⟨waiting, h_some, rfl⟩ := Option.map_eq_some_iff.mp h_connect
      rw [h_some] at h_acceptor
      have h_on : (s.send thr).Listens := by
        by_contra h_deaf
        rw [if_neg h_deaf] at h_acceptor
        cases h_acceptor
      rw [if_pos h_on, if_neg fun h_and => h_and.1] at h_acceptor
      obtain rfl := Option.some.inj h_acceptor
      have h_new : Link setup thr (s.setLink thr (s.send thr) .writeId (s.sendThreadReady thr)
          (some [.rcv thr]) (s.toServer (.rcv thr))) := by
        refine Link.setLink h_sender (by simpa using h_receiver) h_heard h_signal ?_ (fun _ => h_on)
          (fun _ => trivial) h_socket (fun c id => h_unpaired c id _) ?_ (fun h => by cases h)
        · rw [if_pos h_on, if_pos ⟨trivial, h_accepted⟩]
        · simpa using h_line
      have h_next := h.setLink thr _ _ _ _ _ h_new
      simpa only [State.setLink, update_eq_self, List.nil_append] using h_next
    · next h_connect =>
      cases h_act
      have h_none := Option.map_eq_none_iff.mp h_connect
      -- with all send threads listening, this one has none of its number
      have h_extra : setup.senv.networkParallelism ≤ thr := by
        by_contra h_lt
        rw [h_none, if_pos (h_listens (h.base.told h_told) (not_le.mp h_lt))] at h_acceptor
        cases h_acceptor
      have h_new : Link setup thr (s.setLink thr (s.send thr) .unconnected (s.sendThreadReady thr)
          (s.acceptors (basePort + thr + 1)) (s.toServer (.rcv thr))) := by
        refine Link.setLink h_sender (by simpa using h_receiver) h_heard h_signal ?_ False.elim
          h_accepted h_socket (fun c id => h_unpaired c id _) ?_ (fun _ => h_extra)
        · exact h_acceptor.trans (if_congr Iff.rfl (congrArg some (if_congr Iff.rfl rfl rfl)) rfl)
        · simpa using h_line
      have h_next := h.setLink thr _ _ _ _ _ h_new
      simpa only [State.setLink, update_eq_self] using h_next
  -- the other end does not answer before it has read this line
  case writeId =>
    cases h_act
    have h_unpaired : ¬ (s.send thr).Paired := by
      intro h_sending
      cases h_send : s.send thr <;> rw [h_send] at h_sending <;> try exact h_sending.elim
      have h_all := h_paired _ _ h_send
      rw [h_stage] at h_all
      cases h_all.2.2
    rw [if_neg fun h_and => by cases h_and.1] at h_line
    have h_new : Link setup thr (s.setLink thr (s.send thr) .receiving (s.sendThreadReady thr)
        (s.acceptors (basePort + thr + 1)) (s.toServer (.rcv thr) ++ idLine thr)) := by
      refine Link.setLink h_sender (by simpa using h_receiver) h_heard h_signal ?_ h_reached
        h_accepted h_socket (fun c id h_send => ⟨(h_paired c id h_send).1,
          (h_paired c id h_send).2.1, rfl⟩) ?_ (fun h => by cases h)
      · exact h_acceptor.trans (if_congr Iff.rfl (congrArg some (if_congr Iff.rfl rfl rfl)) rfl)
      · rw [h_line, if_pos ⟨rfl, h_unpaired⟩, List.nil_append]
    have h_next := h.setLink thr _ _ _ _ _ h_new
    simpa only [State.setLink, State.write, update_eq_self] using h_next
  case receiving => cases h_act
  case unconnected => cases h_act

/-! ### The client -/

/-- The base socket connects where the server accepts. -/
theorem Inv.front (h : Inv setup s) (h_apart : ¬ s.init.Connected) {port : ℕ} {waiting : List Conn}
    (h_some : s.acceptors port = some waiting) :
    port = basePort ∧ s.serve = .accept ∧ waiting = [] := by
  obtain ⟨h_base, h_link, h_low⟩ := h
  have h_early : ¬ s.serve.Accepted := fun h_accepted => h_apart (h_base.connected h_accepted)
  rcases lt_trichotomy port basePort with h_lt | rfl | h_gt
  · rw [h_low port h_lt] at h_some
    cases h_some
  · have h_backlog := h_base.acceptor
    rw [h_some] at h_backlog
    cases h_stage : s.serve <;> rw [h_stage] at h_backlog h_early <;>
      first | exact absurd trivial h_early | skip
    · cases h_backlog
    · rw [baseBacklog, if_neg h_apart] at h_backlog
      exact ⟨rfl, rfl, Option.some.inj h_backlog⟩
  · -- the send threads are started later
    obtain ⟨thr, rfl⟩ : ∃ thr, port = basePort + thr + 1 := ⟨port - basePort - 1, by omega⟩
    have h_absent : s.send thr = .absent := by
      refine (h_link thr).sender.mpr ?_
      cases h_stage : s.serve <;> rw [h_stage] at h_early <;>
        first | exact absurd trivial h_early | exact Nat.zero_le _
    have h_deaf : ¬ Send.absent.Listens := id
    have h_acceptor := (h_link thr).acceptor
    rw [h_absent, h_some, if_neg h_deaf] at h_acceptor
    cases h_acceptor

/-- The client goes on without a change at the ports. -/
theorem Base.proceed (h : Base setup s) (h_serve : s'.serve = s.serve)
    (h_bounded : s'.init.Bounded setup.cenv.rcvParallelism)
    (h_connected : s'.init.Connected ↔ s.init.Connected) (h_socket : s'.baseSocket = s.baseSocket)
    (h_table : s'.tableName = s.tableName) (h_schema : s'.schemaJSON = s.schemaJSON)
    (h_acceptor : s'.acceptors basePort = s.acceptors basePort)
    (h_stream : ∀ xs, xs ++ s.toServer .base = written setup s.init →
      xs ++ s'.toServer .base = written setup s'.init)
    (h_reply : s'.toClient = if s.serve = .join ∧ ¬ s'.init.Told then serverReady else [])
    (h_told : s'.init.Told → s.serve = .join) : Base setup s' := by
  refine ⟨h_serve ▸ h.bounded, h_bounded, h_socket.trans h.socket, ?_, ?_, ?_, ?_, ?_, ?_, ?_, ?_⟩
  · exact fun h_on => h.port (h_connected.mp h_on)
  · rw [h_acceptor, h.acceptor, h_serve]
    cases s.serve <;> first | rfl | simp only [baseBacklog, h_connected]
  · exact fun h_accepted => h_connected.mpr (h.connected (h_serve ▸ h_accepted))
  · exact fun h_on => h_serve ▸ h.listens (h_connected.mp h_on)
  · rw [h_table, h_schema]
    exact h.sizes
  · rw [h_table, h_schema, h_serve]
    exact h_stream _ h.stream
  · rw [h_serve]
    exact h_reply
  · rw [h_serve]
    exact h_told

/-- The base socket connects. -/
theorem Inv.connect (h : Inv setup s) (h_apart : ¬ s.init.Connected) {waiting : List Conn}
    (h_some : s.acceptors setup.serverPort = some waiting)
    (h_nothing : written setup s.init = [])
    (h_none : s.init.receives setup.cenv.rcvParallelism = 0) :
    Inv setup { s with
      acceptors := update s.acceptors setup.serverPort (some (waiting ++ [.base]))
      init := .writeTableName } := by
  obtain ⟨h_port, h_accept, rfl⟩ := h.front h_apart h_some
  obtain ⟨h_base, h_link, h_low⟩ := h
  have h_before : s.serve ≠ .join := by rw [h_accept]; exact fun h => by cases h
  have h_stream := h_base.stream
  rw [h_nothing] at h_stream
  rw [h_port]
  refine ⟨⟨h_base.bounded, trivial, h_base.socket, fun _ => h_port, ?_, fun _ => trivial, ?_,
    h_base.sizes, h_stream, ?_, False.elim⟩, fun thr => (h_link thr).congr rfl rfl rfl ?_ rfl
    Iff.rfl Iff.rfl ?_, fun port h_lt => ?_⟩
  · -- the connection joins the backlog of the base port, which `serve` is about to take from
    dsimp only
    rw [update_self, h_accept]
    rfl
  · rintro - h_listen
    rw [h_accept] at h_listen
    cases h_listen
  · rw [if_neg fun h_and => h_before h_and.1]
    exact (h_base.before h_before).1
  · exact update_of_ne (port_ne thr) _ _
  · rw [h_none]
    exact Iff.rfl
  · exact (update_of_ne h_lt.ne _ _).trans (h_low port h_lt)

/-- The client writes to its base socket. -/
theorem Inv.write (h : Inv setup s) (bytes : List UInt8) (stage : Init)
    (h_bounded : stage.Bounded setup.cenv.rcvParallelism)
    (h_connected : stage.Connected ↔ s.init.Connected) (h_before : ¬ s.init.Told)
    (h_after : ¬ stage.Told)
    (h_none : stage.receives setup.cenv.rcvParallelism
      = s.init.receives setup.cenv.rcvParallelism)
    (h_written : written setup stage = written setup s.init ++ bytes) :
    Inv setup { s.write .base bytes with init := stage } := by
  obtain ⟨h_base, h_link, h_low⟩ := h
  have h_conn : ∀ thr, Conn.rcv thr ≠ .base := fun thr h => by cases h
  refine ⟨h_base.proceed rfl h_bounded h_connected rfl rfl rfl rfl (fun xs h_xs => ?_) ?_
    fun h_told => absurd h_told h_after, fun thr => (h_link thr).congr rfl rfl rfl rfl
    (update_of_ne (h_conn thr) (s.toServer .base ++ bytes) s.toServer) Iff.rfl Iff.rfl
    (by rw [h_none]), h_low⟩
  · simp only [State.write, update_self, ← List.append_assoc, h_xs, h_written]
  · simp only [h_after]
    exact h_base.reply.trans (by simp only [h_before])

/-- A receive thread is started. -/
theorem Inv.start (h : Inv setup s) {i : ℕ} (h_stage : s.init = .startReceive i)
    (h_lt : i < setup.cenv.rcvParallelism) :
    Inv setup { s with init := .startReceive (i + 1), receive := update s.receive i .connect } := by
  obtain ⟨h_base, h_link, h_low⟩ := h
  have h_reply := h_base.reply
  have h_told := h_base.told
  rw [h_stage] at h_reply h_told
  refine ⟨h_base.proceed rfl h_lt ?_ rfl rfl rfl rfl (fun xs h_xs => ?_) h_reply h_told,
    fun thr => ?_, h_low⟩
  · rw [h_stage]
    exact Iff.rfl
  · rw [h_stage] at h_xs
    exact h_xs
  -- the new thread has not connected, all others are as they were
  by_cases h_eq : thr = i
  · subst h_eq
    obtain ⟨h_sender, h_receiver, h_heard, h_signal, h_acceptor, h_reached, h_accepted, h_socket,
      h_paired, h_line, h_refused⟩ := h_link thr
    have h_absent : s.receive thr = .absent := h_receiver.mpr (by rw [h_stage]; exact le_rfl)
    rw [h_absent] at h_acceptor h_reached h_accepted h_line
    constructor <;> simp_all [Init.receives, Receive.Connected]
  · refine (h_link thr).congr rfl (update_of_ne h_eq _ _) rfl rfl rfl Iff.rfl Iff.rfl ?_
    rw [h_stage]
    simp only [Init.receives]
    omega

/-- **Step lemma** for the thread of `startReceiving`. -/
theorem Inv.startReceiving (h : Inv setup s) (h_act : Handshake.startReceiving setup s = some s') :
    Inv setup s' := by
  unfold Handshake.startReceiving at h_act
  rcases h_stage : s.init with tries | _ | _ | _ | i | _ | _ <;> rw [h_stage] at h_act <;>
    dsimp only at h_act
  -- the connection goes to the backlog of the base port, if somebody listens there
  case connect =>
    have h_apart : ¬ s.init.Connected := by rw [h_stage]; exact id
    split at h_act
    · next s₁ h_connect =>
      cases h_act
      obtain ⟨waiting, h_some, rfl⟩ := Option.map_eq_some_iff.mp h_connect
      exact h.connect h_apart h_some (by rw [h_stage]; rfl) (by rw [h_stage]; rfl)
    · cases h_act
      -- the attempt has failed
      have h_stays : ∀ stage : Init, ¬ stage.Connected → ¬ stage.Told →
          stage.Bounded setup.cenv.rcvParallelism → written setup stage = [] →
          stage.receives setup.cenv.rcvParallelism = 0 → Inv setup { s with init := stage } := by
        intro stage h_off h_untold h_bounded h_nothing h_none
        have h_next := h.write [] stage h_bounded (iff_of_false h_off h_apart)
          (by rw [h_stage]; exact id) h_untold (by rw [h_none, h_stage]; rfl)
          (by rw [h_nothing, h_stage]; rfl)
        simpa only [State.write, List.append_nil, update_eq_self] using h_next
      split
      · exact h_stays _ id id trivial rfl rfl
      · exact h_stays _ id id trivial rfl rfl
  -- the two fields that `serve` reads one after the other
  case writeTableName =>
    cases h_act
    exact h.write _ _ trivial (by rw [h_stage]; exact Iff.rfl) (by rw [h_stage]; exact id) id
      (by rw [h_stage]; rfl) (by rw [h_stage]; rfl)
  case writeSchema =>
    cases h_act
    exact h.write _ _ trivial (by rw [h_stage]; exact Iff.rfl) (by rw [h_stage]; exact id) id
      (by rw [h_stage]; rfl) (by rw [h_stage]; rfl)
  case readReady =>
    split at h_act
    · next h_mem =>
      cases h_act
      obtain ⟨h_base, h_link, h_low⟩ := h
      -- only the last step of `serve` writes to the client
      have h_join : s.serve = .join := by
        by_contra h_before
        rw [(h_base.before h_before).1] at h_mem
        cases h_mem
      refine ⟨h_base.proceed rfl (Nat.zero_le _) ?_ rfl rfl rfl rfl (fun xs h_xs => ?_) ?_
        fun _ => h_join, fun thr => (h_link thr).congr rfl rfl rfl rfl rfl Iff.rfl Iff.rfl ?_,
        h_low⟩
      · rw [h_stage]
        exact Iff.rfl
      · rw [h_stage] at h_xs
        exact h_xs
      · exact (if_neg fun h_and => h_and.2 trivial).symm
      · rw [h_stage]
        exact Iff.rfl
    · cases h_act
  -- one receive thread after the other
  case startReceive =>
    split at h_act
    · next h_lt =>
      cases h_act
      exact h.start h_stage h_lt
    · next h_not =>
      cases h_act
      have h_bounded := h.base.init_bounded
      have h_reply := h.base.reply
      have h_told := h.base.told
      rw [h_stage] at h_bounded h_reply h_told
      have h_all : i = setup.cenv.rcvParallelism := le_antisymm h_bounded (not_lt.mp h_not)
      refine ⟨h.base.proceed rfl trivial ?_ rfl rfl rfl rfl (fun xs h_xs => ?_) h_reply h_told,
        fun thr => (h.link thr).congr rfl rfl rfl rfl rfl Iff.rfl Iff.rfl ?_, h.low⟩
      · rw [h_stage]
        exact Iff.rfl
      · rw [h_stage] at h_xs
        exact h_xs
      · rw [h_stage, h_all]
        exact Iff.rfl
  case started => cases h_act
  case thrown => cases h_act

/-! ### All runs -/

/-- When the processes start, the invariant holds. -/
theorem inv_initial (setup : Setup) : Inv setup initial where
  base := ⟨trivial, trivial, rfl, False.elim, rfl, False.elim, False.elim, by decide, rfl, rfl,
    False.elim⟩
  link thr := by
    constructor <;> simp [initial, Serve.sends, Serve.heard, Init.receives, Send.Signalled,
      Send.Listens, Send.Accepted, Receive.Connected]
  low _ _ := rfl

/-- **Step lemma.** -/
theorem Inv.step {a : Actor} (h : Inv setup s) (h_act : handshake setup a s = some s') :
    Inv setup s' := by
  cases a with
  | serve => exact h.serve h_act
  | send thr => exact h.send h_act
  | startReceiving => exact h.startReceiving h_act
  | receive thr => exact h.receive h_act

/-- **Run lemma.** -/
theorem inv_of_reachable (h : Actors.Reachable (handshake setup) initial s) : Inv setup s :=
  h.invariant (inv_initial setup) fun _ _ _ h_inv h_act => h_inv.step h_act

/-! ### Two threads on each side -/

/-- A client that wants table `t`. -/
def twoThreads : Setup where
  senv := {
    compressionAlgorithm := .nocomp, iformat := 1, bufferSize := 1, buffersInBufferpool := 16,
    readParallelism := 1, deserParallelism := 1, compressionParallelism := 1,
    networkParallelism := 2, skipDeserializer := false, schema := [] }
  cenv := {
    iformat := 1, bufferSize := 1, buffersInBufferpool := 16, rcvParallelism := 2,
    decompParallelism := 1, serParallelism := 1, writeParallelism := 1, skipSerializer := false,
    schema := [] }
  serverPort := basePort
  tableName := [116]
  schemaJSON := [91, 93]

/-- The client comes too early once, and thread `1` of the server is faster than thread `0`. -/
def twoThreadsRun : List Actor :=
  [Actor.startReceiving, Actor.serve, Actor.startReceiving, Actor.serve] ++
    List.replicate 2 Actor.startReceiving ++ List.replicate 7 Actor.serve ++
    List.replicate 2 (Actor.send 1) ++ List.replicate 2 (Actor.send 0) ++
    List.replicate 4 Actor.serve ++ List.replicate 4 Actor.startReceiving ++
    List.replicate 2 (Actor.receive 0) ++ List.replicate 2 (Actor.receive 1) ++
    List.replicate 2 (Actor.send 1) ++ List.replicate 2 (Actor.send 0)

/-- In that run both pairs of threads find each other, and no thread can go on. -/
theorem exists_twoThreadsRun :
    ∃ s, Actors.Reachable (handshake twoThreads) initial s ∧
      (s.serve = .join ∧ s.send 0 = .sending (.rcv 0) [48] ∧ s.send 1 = .sending (.rcv 1) [49]) ∧
      (serve twoThreads s).isNone ∧ (startReceiving twoThreads s).isNone ∧
      ∀ thr < 2, (send thr s).isNone ∧ (receive twoThreads thr s).isNone :=
  Actors.exists_reachable_of_exec twoThreadsRun _ (by decide +kernel)

/-- **Every send thread is paired with the receive thread of its number**, in every state of every
run: the socket it sends to is the connection of that thread, and so is the number it has read. No
receive thread that has a send thread of its number is turned away. -/
theorem paired_of_reachable (h_run : Actors.Reachable (handshake setup) initial s) (thr : ℕ) :
    (∀ c id, s.send thr = .sending c id →
        c = .rcv thr ∧ id = printNat thr ∧ s.receive thr = .receiving) ∧
      (thr < setup.senv.networkParallelism → s.receive thr ≠ .unconnected) := by
  have h_link := (inv_of_reachable h_run).link thr
  exact ⟨h_link.paired, fun h_lt h_refused => absurd (h_link.refused h_refused) (not_le.mpr h_lt)⟩

/-- Thread `1` is paired before thread `0`, and with its own partner. -/
theorem paired_twoThreads :
    ∃ s, Actors.Reachable (handshake twoThreads) initial s ∧ s.send 1 = .sending (.rcv 1) [49] ∧
      s.receive 1 = .receiving ∧ s.receive 0 ≠ .unconnected := by
  obtain ⟨s, h_run, ⟨-, -, h_one⟩, -⟩ := exists_twoThreadsRun
  exact ⟨s, h_run, h_one, ((paired_of_reachable h_run 1).1 _ _ h_one).2.2,
    (paired_of_reachable h_run 0).2 (by decide)⟩

/-- The server has read what the client wants. -/
def Serve.Requested : Serve → Prop
  | .startSend _ => True
  | .awaitReady _ _ => True
  | .writeReady => True
  | .join => True
  | _ => False

/-- What has been read is what has been written. -/
theorem Inv.requested (h : Inv setup s) (h_requested : s.serve.Requested)
    (h_fits : setup.tableName.length < 2 ^ 32) :
    s.tableName = setup.tableName ∧
      (setup.schemaJSON.length < 2 ^ 32 → s.schemaJSON = setup.schemaJSON) := by
  obtain ⟨h_table, h_schema⟩ := h.base.sizes
  have h_stream := h.base.stream
  have h_consumed : consumed s.tableName s.schemaJSON s.serve
      = sized s.tableName ++ sized s.schemaJSON := by
    cases h_stage : s.serve <;> rw [h_stage] at h_requested <;> first | rfl | exact h_requested.elim
  rw [h_consumed, List.append_assoc] at h_stream
  -- the client has written all of it, or nothing would be left for the schema
  have h_written : written setup s.init = sized setup.tableName ++ sized setup.schemaJSON := by
    have h_length := congrArg List.length h_stream
    simp only [List.length_append, length_sized] at h_length
    have h_first : written setup s.init ≠ [] := by
      intro h_nil
      rw [h_nil, List.length_nil] at h_length
      omega
    have h_second : written setup s.init ≠ sized setup.tableName := by
      intro h_half
      rw [h_half, ← List.append_nil (sized setup.tableName)] at h_stream
      have h_rest := congrArg List.length (sized_append_inj h_table h_fits h_stream).2
      simp only [List.length_append, length_sized, List.length_nil] at h_rest
      omega
    cases h_init : s.init <;> rw [h_init] at h_first h_second <;>
      first | rfl | exact absurd rfl h_first | exact absurd rfl h_second
  rw [h_written] at h_stream
  obtain ⟨h_name, h_rest⟩ := sized_append_inj h_table h_fits h_stream
  refine ⟨h_name, fun h_small => ?_⟩
  rw [← List.append_nil (sized setup.schemaJSON)] at h_rest
  exact (sized_append_inj h_schema h_small h_rest).1

/-- **The server reads what the client asks for**, in every run, if and only if the sizes fit into
32 bits. -/
theorem requested_iff (h_run : Actors.Reachable (handshake setup) initial s)
    (h_requested : s.serve.Requested) :
    s.tableName = setup.tableName ∧ s.schemaJSON = setup.schemaJSON ↔
      setup.tableName.length < 2 ^ 32 ∧ setup.schemaJSON.length < 2 ^ 32 := by
  have h_inv := inv_of_reachable h_run
  constructor
  · rintro ⟨h_name, h_schema⟩
    rw [← h_name, ← h_schema]
    exact h_inv.base.sizes
  · rintro ⟨h_fits, h_small⟩
    obtain ⟨h_name, h_schema⟩ := h_inv.requested h_requested h_fits
    exact ⟨h_name, h_schema h_small⟩

/-- The server reads the name and the schema. -/
theorem requested_twoThreads :
    ∃ s, Actors.Reachable (handshake twoThreads) initial s ∧ s.tableName = [116] ∧
      s.schemaJSON = [91, 93] := by
  obtain ⟨s, h_run, ⟨h_join, -⟩, -⟩ := exists_twoThreadsRun
  have h_requested : s.serve.Requested := h_join ▸ trivial
  exact ⟨s, h_run, (requested_iff h_run h_requested).mpr ⟨by decide, by decide⟩⟩

end Steps

end Xdbc.Handshake
