import Xdbc.Handshake.Safety
import Xdbc.Client.Shutdown

/-!
# The handshake ends

Every action brings its actor forward, so a run has at most as many actions as there are points
ahead (`total`). When nobody can go on, either the client has given up, because the server had not
opened its port at any of four attempts, or both processes are through: every receive thread is
paired with the send thread of its number, as far as there is one. The receive threads beyond that
have been turned away, and the send threads beyond that wait for a connection that does not come
(`handshake_ends`).

The client of the pipeline model is `Connected` after a handshake if it has no more receive threads
than the server has send threads (`connected_iff`).
-/

namespace Xdbc.Handshake

open Bytes Function

variable (setup : Setup)

/-! ### The points ahead -/

/-- The actions of `serve` that are still to come, at most. -/
def Serve.rank (n : ℕ) : Serve → ℕ
  | .listen => 2 * n + 10
  | .accept => 2 * n + 9
  | .readTableNameSize => 2 * n + 8
  | .readTableName _ => 2 * n + 7
  | .readSchemaSize => 2 * n + 6
  | .readSchema _ => 2 * n + 5
  | .startSend i => n - i + (n + 4)
  | .awaitReady acc _ => n - acc + 3
  | .writeReady => 2
  | .join => 1

/-- The actions of a send thread that are still to come. -/
def Send.rank : Send → ℕ
  | .absent => 5
  | .listen => 4
  | .signalReady => 3
  | .accept => 2
  | .readId _ => 1
  | .sending _ _ => 0

/-- The actions of `startReceiving` that are still to come, at most. -/
def Init.rank (n : ℕ) : Init → ℕ
  | .connect tries => n + 6 + (3 - tries)
  | .writeTableName => n + 5
  | .writeSchema => n + 4
  | .readReady => n + 3
  | .startReceive i => n - i + 1
  | .started => 0
  | .thrown => 0

/-- The actions of a receive thread that are still to come. -/
def Receive.rank : Receive → ℕ
  | .absent => 3
  | .connect => 2
  | .writeId => 1
  | .receiving => 0
  | .unconnected => 0

/-- The points ahead of all actors. -/
def total (s : State) : ℕ :=
  s.serve.rank setup.senv.networkParallelism + s.init.rank setup.cenv.rcvParallelism
    + ∑ thr ∈ Finset.range setup.senv.networkParallelism, (s.send thr).rank
    + ∑ thr ∈ Finset.range setup.cenv.rcvParallelism, (s.receive thr).rank

variable {setup} {s s' : State}

/-- A send thread that has been started is one of `network_parallelism`. -/
theorem Inv.send_lt (h : Inv setup s) {thr : ℕ} (h_started : s.send thr ≠ .absent) :
    thr < setup.senv.networkParallelism := by
  by_contra h_ge
  have h_bounded := h.base.bounded
  refine h_started ((h.link thr).sender.mpr ?_)
  cases h_stage : s.serve <;> rw [h_stage] at h_bounded <;>
    first | exact Nat.zero_le _ | exact not_lt.mp h_ge | exact h_bounded.trans (not_lt.mp h_ge)

/-- A receive thread that has been started is one of `rcv_parallelism`. -/
theorem Inv.receive_lt (h : Inv setup s) {thr : ℕ} (h_started : s.receive thr ≠ .absent) :
    thr < setup.cenv.rcvParallelism := by
  by_contra h_ge
  have h_bounded := h.base.init_bounded
  refine h_started ((h.link thr).receiver.mpr ?_)
  cases h_stage : s.init <;> rw [h_stage] at h_bounded <;>
    first | exact Nat.zero_le _ | exact not_lt.mp h_ge | exact h_bounded.trans (not_lt.mp h_ge)

theorem serve_lt (h : Inv setup s) (h_act : serve setup s = some s') :
    total setup s' < total setup s := by
  unfold serve at h_act
  rcases h_stage : s.serve with _ | _ | _ | k | _ | k | i | ⟨acc, q⟩ | _ | _ <;>
    rw [h_stage] at h_act <;> dsimp only at h_act
  case listen =>
    cases h_act
    simp only [total, State.listen, h_stage, Serve.rank]
    omega
  case accept =>
    obtain ⟨⟨c, s₁⟩, h_accept, rfl⟩ := Option.map_eq_some_iff.mp h_act
    obtain ⟨waiting, -, rfl⟩ := State.accept_eq h_accept
    simp only [total, h_stage, Serve.rank]
    omega
  case startSend =>
    split at h_act
    · next h_lt =>
      cases h_act
      have h_absent : s.send i = .absent := (h.link i).sender.mpr (by rw [h_stage]; exact le_rfl)
      have h_rank : Send.listen.rank < (s.send i).rank := by
        rw [h_absent]
        decide
      have h_less := Actors.sum_update_lt (Finset.mem_range.mpr h_lt) h_rank
      simp only [total, h_stage, Serve.rank]
      omega
    · cases h_act
      simp only [total, h_stage, Serve.rank]
      omega
  case awaitReady =>
    split at h_act
    · cases h_act
      simp only [total, h_stage, Serve.rank]
      omega
    · next h_ne =>
      split at h_act
      · cases h_act
      · next x xs h_ready =>
        cases h_act
        obtain ⟨h_lt, -, rfl, -⟩ := h.signal_eq h_stage h_ne h_ready
        simp only [total, h_stage, Serve.rank]
        omega
  case writeReady =>
    cases h_act
    simp only [total, h_stage, Serve.rank]
    omega
  case join => cases h_act
  -- the four stages that read
  all_goals
    obtain ⟨⟨bytes, s₁⟩, h_read, rfl⟩ := Option.map_eq_some_iff.mp h_act
    obtain ⟨-, rest, -, rfl⟩ := State.read_eq h_read
    simp only [total, h_stage, Serve.rank]
    omega

theorem send_lt {thr : ℕ} (h : Inv setup s) (h_act : send thr s = some s') :
    total setup s' < total setup s := by
  have h_rank : ∀ x : Send, x.rank < (s.send thr).rank → s.send thr ≠ .absent →
      ∑ j ∈ Finset.range setup.senv.networkParallelism, (update s.send thr x j).rank
        < ∑ j ∈ Finset.range setup.senv.networkParallelism, (s.send j).rank :=
    -- the thread is among those that are summed up, because it has been started
    fun x h_lt h_started => Actors.sum_update_lt (Finset.mem_range.mpr (h.send_lt h_started)) h_lt
  unfold send at h_act
  rcases h_stage : s.send thr with _ | _ | _ | _ | c | ⟨c, id⟩ <;>
    rw [h_stage] at h_act h_rank <;> dsimp only at h_act
  case absent => cases h_act
  case listen =>
    cases h_act
    have h_less := h_rank .signalReady (by decide) (fun h => by cases h)
    dsimp only [total, State.listen]
    omega
  case signalReady =>
    cases h_act
    have h_less := h_rank .accept (by decide) (fun h => by cases h)
    dsimp only [total]
    omega
  case accept =>
    obtain ⟨⟨c, s₁⟩, h_accept, rfl⟩ := Option.map_eq_some_iff.mp h_act
    obtain ⟨waiting, -, rfl⟩ := State.accept_eq h_accept
    have h_less := h_rank (.readId c) (Nat.lt_succ_self 1) (fun h => by cases h)
    dsimp only [total]
    omega
  case readId =>
    obtain ⟨⟨bytes, s₁⟩, h_read, rfl⟩ := Option.map_eq_some_iff.mp h_act
    obtain ⟨-, rfl, rfl⟩ := State.readLine_eq h_read
    have h_less := h_rank (.sending c ((s.toServer c).filter (· ≠ newline))) Nat.one_pos
      (fun h => by cases h)
    dsimp only [total]
    omega
  case sending => cases h_act

theorem startReceiving_lt (h : Inv setup s) (h_act : startReceiving setup s = some s') :
    total setup s' < total setup s := by
  unfold startReceiving at h_act
  rcases h_stage : s.init with tries | _ | _ | _ | i | _ | _ <;> rw [h_stage] at h_act <;>
    dsimp only at h_act
  case connect =>
    split at h_act
    · next s₁ h_connect =>
      cases h_act
      obtain ⟨waiting, -, rfl⟩ := Option.map_eq_some_iff.mp h_connect
      simp only [total, h_stage, Init.rank]
      omega
    · cases h_act
      split <;> simp only [total, h_stage, Init.rank] <;> omega
  case readReady =>
    split at h_act
    · cases h_act
      simp only [total, h_stage, Init.rank]
      omega
    · cases h_act
  case startReceive =>
    split at h_act
    · next h_lt =>
      cases h_act
      have h_absent : s.receive i = .absent :=
        (h.link i).receiver.mpr (by rw [h_stage]; exact le_rfl)
      have h_rank : Receive.connect.rank < (s.receive i).rank := by
        rw [h_absent]
        decide
      have h_less := Actors.sum_update_lt (Finset.mem_range.mpr h_lt) h_rank
      simp only [total, h_stage, Init.rank]
      omega
    · cases h_act
      simp only [total, h_stage, Init.rank]
      omega
  case started => cases h_act
  case thrown => cases h_act
  -- the two stages that write
  all_goals
    cases h_act
    simp only [total, State.write, h_stage, Init.rank]
    omega

theorem receive_lt {thr : ℕ} (h : Inv setup s) (h_act : receive setup thr s = some s') :
    total setup s' < total setup s := by
  -- the rank of this thread is one summand
  have h_rank : ∀ x : Receive, x.rank < (s.receive thr).rank → s.receive thr ≠ .absent →
      ∑ j ∈ Finset.range setup.cenv.rcvParallelism, (update s.receive thr x j).rank
        < ∑ j ∈ Finset.range setup.cenv.rcvParallelism, (s.receive j).rank :=
    fun x h_lt h_started =>
      Actors.sum_update_lt (Finset.mem_range.mpr (h.receive_lt h_started)) h_lt
  unfold receive at h_act
  rcases h_stage : s.receive thr with _ | _ | _ | _ | _ <;>
    rw [h_stage] at h_act h_rank <;> dsimp only at h_act
  case absent => cases h_act
  case connect =>
    -- the connection is accepted or refused, and both are further on
    split at h_act
    · next s₁ h_connect =>
      cases h_act
      obtain ⟨waiting, -, rfl⟩ := Option.map_eq_some_iff.mp h_connect
      have h_less := h_rank .writeId (by decide) (fun h => by cases h)
      dsimp only [total]
      omega
    · cases h_act
      have h_less := h_rank .unconnected (by decide) (fun h => by cases h)
      dsimp only [total]
      omega
  case writeId =>
    cases h_act
    have h_less := h_rank .receiving (by decide) (fun h => by cases h)
    dsimp only [total, State.write]
    omega
  case receiving => cases h_act
  case unconnected => cases h_act

/-- **Step lemma.** Every action brings the handshake forward. -/
theorem total_lt (a : Actor) (s s' : State) (h : Inv setup s)
    (h_act : handshake setup a s = some s') : total setup s' < total setup s := by
  cases a with
  | serve => exact serve_lt h h_act
  | send thr => exact send_lt h h_act
  | startReceiving => exact startReceiving_lt h h_act
  | receive thr => exact receive_lt h h_act

/-! ### Where it ends -/

/-- The processes are through: the threads that have a partner are paired. -/
structure Through (setup : Setup) (s : State) : Prop where
  serve : s.serve = .join
  init : s.init = .started
  paired : ∀ thr, thr < setup.senv.networkParallelism → thr < setup.cenv.rcvParallelism →
    s.send thr = .sending (.rcv thr) (printNat thr) ∧ s.receive thr = .receiving
  turnedAway : ∀ thr, setup.senv.networkParallelism ≤ thr → thr < setup.cenv.rcvParallelism →
    s.receive thr = .unconnected
  waiting : ∀ thr, thr < setup.senv.networkParallelism → setup.cenv.rcvParallelism ≤ thr →
    s.send thr = .accept

/-- Bytes that are there can be read. -/
theorem State.isSome_read {c : Conn} {k : ℕ} (h : k ≤ (s.toServer c).length) :
    s.read c k ≠ none := by
  rw [read, if_pos h]
  exact Option.some_ne_none _

/-- The server does not wait for a send thread that has nothing to wait for itself. -/
theorem Inv.ready_of_halted (h : Inv setup s) (h_halted : Actors.Halted (handshake setup) s)
    {acc q : ℕ} (h_stage : s.serve = .awaitReady acc q)
    (h_ne : acc ≠ setup.senv.networkParallelism) : s.sendThreadReady q ≠ [] := by
  intro h_empty
  have h_bounded := h.base.bounded
  rw [h_stage] at h_bounded
  obtain ⟨h_le, h_turn⟩ := h_bounded
  have h_lt := lt_of_le_of_ne h_le h_ne
  rw [Nat.mod_eq_of_lt h_lt] at h_turn
  subst h_turn
  obtain ⟨h_sender, -, -, h_signal, -⟩ := h.link q
  rw [h_stage] at h_sender h_signal
  rw [h_empty] at h_signal
  -- thread `q` has not signalled, and nothing keeps it from that
  have h_send : Handshake.send q s = none := h_halted (.send q)
  unfold Handshake.send at h_send
  cases h_point : s.send q <;> rw [h_point] at h_send h_sender h_signal
  case absent => exact absurd (h_sender.mp rfl) (not_le.mpr h_lt)
  case listen => cases h_send
  case signalReady => cases h_send
  all_goals simp [Send.Signalled, Serve.heard] at h_signal

/-- A server whose client has not given up is through when nobody can go on. -/
theorem Inv.join_of_halted (h : Inv setup s) (h_halted : Actors.Halted (handshake setup) s)
    (h_fits : setup.tableName.length < 2 ^ 32) (h_small : setup.schemaJSON.length < 2 ^ 32)
    (h_connected : s.init.Connected) : s.serve = .join := by
  have h_stuck : Handshake.serve setup s = none := h_halted .serve
  have h_client : Handshake.startReceiving setup s = none := h_halted .startReceiving
  have h_stream := h.base.stream
  have h_backlog := h.base.acceptor
  have h_bounded := h.base.bounded
  have h_table := h.base.sizes.1
  -- a connected client has written all it has to write
  have h_written : written setup s.init = sized setup.tableName ++ sized setup.schemaJSON := by
    unfold Handshake.startReceiving at h_client
    cases h_init : s.init <;> rw [h_init] at h_client h_connected <;>
      first | rfl | exact h_connected.elim | cases h_client
  -- so the server has something to read
  have h_read : ∀ {k : ℕ} {f : List UInt8 × State → State},
      (s.read s.baseSocket k).map f = none → ¬ k ≤ (s.toServer .base).length := by
    intro k f h_none h_le
    rw [h.base.socket] at h_none
    exact State.isSome_read h_le (Option.map_eq_none_iff.mp h_none)
  rw [h_written] at h_stream
  unfold Handshake.serve at h_stuck
  rcases h_stage : s.serve with _ | _ | _ | k | _ | k | i | ⟨acc, q⟩ | _ | _ <;>
    rw [h_stage] at h_stuck h_stream h_backlog h_bounded <;> dsimp only at h_stuck
  case listen => cases h_stuck
  case accept =>
    rw [baseBacklog, if_pos h_connected] at h_backlog
    simp [State.accept, h_backlog] at h_stuck
  case readTableNameSize =>
    refine absurd ?_ (h_read h_stuck)
    have h_all : s.toServer .base = _ := h_stream
    rw [h_all, List.length_append, length_sized]
    omega
  case readTableName =>
    refine absurd ?_ (h_read h_stuck)
    obtain ⟨rfl, h_rest⟩ := size_inj h_bounded h_fits h_stream
    rw [h_rest, List.length_append]
    omega
  case readSchemaSize =>
    refine absurd ?_ (h_read h_stuck)
    rw [(sized_append_inj h_table h_fits h_stream).2, length_sized]
    omega
  case readSchema =>
    refine absurd ?_ (h_read h_stuck)
    have h_assoc : sized s.tableName ++ (leBytes 4 k ++ s.toServer .base)
        = sized setup.tableName ++ sized setup.schemaJSON := by
      rw [← List.append_assoc]
      exact h_stream
    have h_second := (sized_append_inj h_table h_fits h_assoc).2
    rw [← List.append_nil (sized setup.schemaJSON)] at h_second
    obtain ⟨rfl, h_rest⟩ := size_inj h_bounded h_small h_second
    rw [h_rest, List.length_append]
    omega
  case startSend => split at h_stuck <;> cases h_stuck
  case awaitReady =>
    split at h_stuck
    · cases h_stuck
    · next h_ne =>
      split at h_stuck
      · next h_empty => exact absurd h_empty (h.ready_of_halted h_halted h_stage h_ne)
      · cases h_stuck
  case writeReady => cases h_stuck

/-- The server's line is there until the client reads it, and then nothing holds it up. -/
theorem Inv.started_of_halted (h : Inv setup s) (h_halted : Actors.Halted (handshake setup) s)
    (h_join : s.serve = .join) (h_connected : s.init.Connected) : s.init = .started := by
  have h_client : Handshake.startReceiving setup s = none := h_halted .startReceiving
  have h_reply := h.base.reply
  unfold Handshake.startReceiving at h_client
  rcases h_stage : s.init with _ | _ | _ | _ | i | _ | _ <;>
    rw [h_stage] at h_client h_connected h_reply <;> dsimp only at h_client
  case readReady =>
    have h_line : s.toClient = serverReady := h_reply.trans (if_pos ⟨h_join, id⟩)
    rw [h_line, if_pos (by decide)] at h_client
    cases h_client
  case startReceive => split at h_client <;> cases h_client
  all_goals first | exact h_connected.elim | cases h_client

/-- A receive thread does not wait for anybody. -/
theorem Inv.receive_of_halted (h : Inv setup s) (h_halted : Actors.Halted (handshake setup) s)
    (h_init : s.init = .started) {thr : ℕ} (h_lt : thr < setup.cenv.rcvParallelism) :
    s.receive thr = .receiving ∨ s.receive thr = .unconnected := by
  have h_receiver := (h.link thr).receiver
  have h_stuck : Handshake.receive setup thr s = none := h_halted (.receive thr)
  rw [h_init] at h_receiver
  unfold Handshake.receive at h_stuck
  cases h_stage : s.receive thr <;> rw [h_stage] at h_stuck h_receiver
  case absent => exact absurd (h_receiver.mp rfl) (not_le.mpr h_lt)
  case connect => dsimp only at h_stuck; split at h_stuck <;> cases h_stuck
  case writeId => cases h_stuck
  case receiving => exact .inl rfl
  case unconnected => exact .inr rfl

/-- A send thread waits for its connection only: the line comes right behind it. -/
theorem Inv.send_of_halted (h : Inv setup s) (h_halted : Actors.Halted (handshake setup) s)
    (h_join : s.serve = .join) (h_init : s.init = .started) {thr : ℕ}
    (h_lt : thr < setup.senv.networkParallelism) :
    s.send thr = .accept ∧ ¬ (s.receive thr).Connected ∨
      s.send thr = .sending (.rcv thr) (printNat thr) ∧ s.receive thr = .receiving := by
  obtain ⟨h_sender, -, -, -, h_acceptor, -, h_accepted, h_socket, h_paired, h_line, -⟩ :=
    h.link thr
  have h_stuck : Handshake.send thr s = none := h_halted (.send thr)
  rw [h_join] at h_sender
  unfold Handshake.send at h_stuck
  rcases h_stage : s.send thr with _ | _ | _ | _ | c | ⟨c, id⟩ <;>
    rw [h_stage] at h_stuck h_sender h_acceptor h_accepted h_line <;> dsimp only at h_stuck
  case absent => exact absurd (h_sender.mp rfl) (not_le.mpr h_lt)
  case listen => cases h_stuck
  case signalReady => cases h_stuck
  case accept =>
    refine .inl ⟨rfl, fun h_waits => ?_⟩
    have h_front : s.acceptors (basePort + thr + 1) = some [.rcv thr] := by
      have h_listens : Send.accept.Listens := trivial
      have h_early : ¬ Send.accept.Accepted := id
      rw [h_acceptor, if_pos h_listens, if_pos ⟨h_waits, h_early⟩]
    simp [State.accept, h_front] at h_stuck
  case readId =>
    obtain rfl := h_socket c h_stage
    -- the receive thread has written its number
    have h_receiving : s.receive thr = .receiving := by
      have h_waits := h_accepted trivial
      have h_started : s.receive thr ≠ .absent := by
        intro h_absent
        rw [h_absent] at h_waits
        exact h_waits
      have h_lt_rcv := h.receive_lt h_started
      refine (h.receive_of_halted h_halted h_init h_lt_rcv).resolve_right fun h_refused => ?_
      rw [h_refused] at h_waits
      exact h_waits
    have h_mem : newline ∈ s.toServer (.rcv thr) := by
      have h_unpaired : ¬ (Send.readId (.rcv thr)).Paired := id
      rw [h_line, if_pos ⟨h_receiving, h_unpaired⟩]
      exact List.mem_append_right _ (List.mem_singleton_self _)
    simp [State.readLine, h_mem] at h_stuck
  case sending =>
    obtain ⟨rfl, rfl, h_receiving⟩ := h_paired c id h_stage
    exact .inr ⟨rfl, h_receiving⟩

/-- When nobody can go on and the client has not given up, the processes are through. -/
theorem Inv.through_of_halted (h : Inv setup s) (h_halted : Actors.Halted (handshake setup) s)
    (h_fits : setup.tableName.length < 2 ^ 32) (h_small : setup.schemaJSON.length < 2 ^ 32)
    (h_connected : s.init.Connected) : Through setup s := by
  have h_join := h.join_of_halted h_halted h_fits h_small h_connected
  have h_init := h.started_of_halted h_halted h_join h_connected
  refine ⟨h_join, h_init, fun thr h_lt h_rcv => ?_, fun thr h_ge h_rcv => ?_,
    fun thr h_lt h_ge => ?_⟩
  · -- a thread of both sides sends, as its receiver has connected
    refine (h.send_of_halted h_halted h_join h_init h_lt).resolve_left fun h_left => ?_
    rcases h.receive_of_halted h_halted h_init h_rcv with h_receiving | h_refused
    · exact h_left.2 (h_receiving ▸ trivial)
    · exact absurd ((h.link thr).refused h_refused) (not_le.mpr h_lt)
  · -- a receiver without a send thread has not
    refine (h.receive_of_halted h_halted h_init h_rcv).resolve_left fun h_receiving => ?_
    have h_listens := (h.link thr).reached (h_receiving ▸ trivial)
    have h_started : s.send thr ≠ .absent := by
      intro h_absent
      rw [h_absent] at h_listens
      exact h_listens
    exact absurd (h.send_lt h_started) (not_lt.mpr h_ge)
  · -- a send thread without a receiver waits
    have h_absent : s.receive thr = .absent :=
      (h.link thr).receiver.mpr (by rw [h_init]; exact h_ge)
    rcases h.send_of_halted h_halted h_join h_init h_lt with ⟨h_waits, -⟩ | ⟨-, h_receiving⟩
    · exact h_waits
    · rw [h_absent] at h_receiving
      cases h_receiving

/-- **The handshake ends.** No run has more actions than `total`, and when nobody can go on, the
client has given up or the processes are through. -/
theorem handshake_ends (h_fits : setup.tableName.length < 2 ^ 32)
    (h_small : setup.schemaJSON.length < 2 ^ 32) {k : ℕ} {s : State}
    (h_run : Actors.Run (handshake setup) initial k s) :
    k ≤ total setup initial ∧
      (Actors.Halted (handshake setup) s → s.init = .thrown ∨ Through setup s) := by
  have h_inv := inv_of_reachable h_run.reachable
  refine ⟨?_, fun h_halted => ?_⟩
  · have h_length := h_run.length_le (fun _ _ _ h h_act => h.step h_act) total_lt
      (inv_initial setup)
    omega
  · by_cases h_connected : s.init.Connected
    · exact .inr (h_inv.through_of_halted h_halted h_fits h_small h_connected)
    · -- a client that is not connected can go on until it gives up
      have h_client : startReceiving setup s = none := h_halted .startReceiving
      unfold startReceiving at h_client
      cases h_stage : s.init <;> rw [h_stage] at h_client h_connected <;>
        first | exact absurd trivial h_connected | skip
      · dsimp only at h_client
        split at h_client <;> cases h_client
      · exact .inl rfl

/-- Only the threads that exist have to be asked. -/
theorem Inv.halted (h : Inv setup s) (h_serve : (Handshake.serve setup s).isNone)
    (h_client : (Handshake.startReceiving setup s).isNone)
    (h_send : ∀ thr < setup.senv.networkParallelism, (Handshake.send thr s).isNone)
    (h_receive : ∀ thr < setup.cenv.rcvParallelism, (Handshake.receive setup thr s).isNone) :
    Actors.Halted (handshake setup) s := by
  intro a
  -- a thread that has not been started does nothing
  cases a with
  | serve => exact Option.isNone_iff_eq_none.mp h_serve
  | startReceiving => exact Option.isNone_iff_eq_none.mp h_client
  | send thr =>
    by_cases h_absent : s.send thr = .absent
    · change Handshake.send thr s = none
      rw [Handshake.send, h_absent]
    · exact Option.isNone_iff_eq_none.mp (h_send thr (h.send_lt h_absent))
  | receive thr =>
    by_cases h_absent : s.receive thr = .absent
    · change Handshake.receive setup thr s = none
      rw [Handshake.receive, h_absent]
    · exact Option.isNone_iff_eq_none.mp (h_receive thr (h.receive_lt h_absent))

/-- With two threads on each side all are paired. -/
theorem handshake_ends_twoThreads :
    ∃ k s, Actors.Run (handshake twoThreads) initial k s ∧ k ≤ total twoThreads initial ∧
      Through twoThreads s := by
  obtain ⟨s, h_reach, ⟨h_join, -⟩, h_serve, h_client, h_threads⟩ := exists_twoThreadsRun
  obtain ⟨k, h_run⟩ := h_reach.run
  have h_inv := inv_of_reachable h_reach
  obtain ⟨h_bound, h_end⟩ := handshake_ends (by decide) (by decide) h_run
  have h_halted := h_inv.halted h_serve h_client (fun thr h_lt => (h_threads thr h_lt).1)
    fun thr h_lt => (h_threads thr h_lt).2
  refine ⟨k, s, h_run, h_bound, (h_end h_halted).resolve_left fun h_thrown => ?_⟩
  have h_connected := h_inv.base.connected (h_join ▸ trivial)
  rw [h_thrown] at h_connected
  exact h_connected

/-! ### The client of the pipeline model -/

/-- After the handshake the client is connected if it has no more receive threads than the server
has send threads. -/
theorem connected_iff (h : Through setup s) (ext : Client.External)
    (h_connects : ∀ i, ext.connects i = decide (s.receive i = .receiving)) :
    Client.Connected setup.cenv ext ↔
      setup.cenv.rcvParallelism ≤ setup.senv.networkParallelism := by
  constructor
  · intro h_connected
    by_contra h_lt
    have h_extra := h.turnedAway _ le_rfl (not_le.mp h_lt)
    have h_receiving := h_connected _ (not_le.mp h_lt)
    rw [h_connects, h_extra] at h_receiving
    cases h_receiving
  · intro h_le i h_lt
    rw [h_connects]
    exact decide_eq_true (h.paired i (lt_of_lt_of_le h_lt h_le) h_lt).2

end Xdbc.Handshake
