import Xdbc.Server.Lines
import Xdbc.Client.Markers
import Xdbc.Client.Progress

/-!
# The end of a stage

What a stage owes the next one when it ends, on both sides of the connection.

Each consumer is to get one end marker. The thread that finds the counter full pushes them, but
counting and comparing are two steps. A thread that counts last while another is in between
overtakes it: both find the counter full, and twice as many markers are pushed
(`signalled_in_turn`). The surplus has no consumer.

A receive thread that cannot connect, or a read thread that cannot open its file, returns without
counting. Then the counter never gets full, and the next stage waits for good
(`stage_signals_iff`).
-/

namespace Xdbc

open Pipeline

/-- **One marker for each consumer.** Of every stage of the server and of the client: in a run in
which none of its threads overtakes, each consumer gets one marker; in any other run, when all its
threads have returned, twice as many have been pushed or more. The server's runs are those in which
no deserialization thread takes a marker for its first buffer. -/
theorem signalled_in_turn (k : ℕ) (hk : k + 1 < 4) :
    (∀ (src : Server.Source) (env : Server.RuntimeEnv) (ext : Server.External),
      Server.Staffed env → ∀ s : State (Server.machine src env ext),
        (InTurn _ (Server.sentinelTaken src env) k (Server.initial src env ext) s →
          SignalledOnce (Server.ended src) s k) ∧
        (Overtaken _ (Server.sentinelTaken src env) k (Server.initial src env ext) s →
          Returned s k → 2 * Server.parallelism env (k + 1) ≤ markers s (k + 1))) ∧
    ∀ (env : Client.RuntimeEnv) (ext : Client.External), Client.Staffed env →
      ∀ s : State (Client.machine env ext),
        (InTurn _ never k (Client.initial env ext) s → SignalledOnce Client.ended s k) ∧
        (Overtaken _ never k (Client.initial env ext) s → Returned s k →
          2 * Client.parallelism env (k + 1) ≤ markers s (k + 1)) := by
  constructor
  · intro src env ext h_staff s
    have h_init := Server.marked_initial src env ext h_staff
    exact ⟨fun h_run => (Server.marking src env ext).signalledOnce hk h_run h_init
        (h_staff.pos k (by omega)),
      fun h_run => (Server.marking src env ext).markers_of_overtaken hk h_run h_init⟩
  · intro env ext h_staff s
    have h_init := Client.marked_initial ext h_staff
    exact ⟨fun h_run => (Client.marking env ext).signalledOnce hk h_run h_init
        (h_staff.pos k (by omega)),
      fun h_run => (Client.marking env ext).markers_of_overtaken hk h_run h_init⟩

/-- Two read threads that come one after the other push one marker for the one deserializer. -/
theorem signalled_in_turn_twoReaders :
    ∃ s, InTurn (Server.machine .csv Server.twoReaders Server.twoLines)
        (Server.sentinelTaken .csv Server.twoReaders) 0
        (Server.initial .csv Server.twoReaders Server.twoLines) s ∧
      Returned s 0 ∧ markers s 1 = 1 := by
  obtain ⟨s, h_turn, h_returned⟩ := Server.exists_inTurn .csv Server.twoReaders Server.twoLines
    (Server.sentinelTaken .csv Server.twoReaders) 0 Server.fairRun (fun s => Returned s 0)
    (by decide +kernel)
  exact ⟨s, h_turn, h_returned, (((signalled_in_turn 0 (by decide)).1 .csv Server.twoReaders
    Server.twoLines ⟨by decide, by decide, by decide, by decide⟩ s).1 h_turn).once h_returned⟩

/-- If both read threads count before either compares, both find the counter full, and two markers
are pushed for the one deserializer. -/
theorem signalled_twice :
    ¬ ∀ (src : Server.Source) (env : Server.RuntimeEnv) (ext : Server.External),
      Server.Staffed env → Server.Undisturbed src env ext → ∀ k, k + 1 < 4 →
      ∀ s : State (Server.machine src env ext), Reachable _ never (Server.initial src env ext) s →
      Returned s k → markers s (k + 1) = Server.parallelism env (k + 1) := by
  intro h
  obtain ⟨s, h_run, h_returned, h_two⟩ := Server.exists_reachable .csv Server.twoReaders
    Server.twoLines (fun _ _ => False) Server.racingRun (fun s => Returned s 0 ∧ markers s 1 = 2)
    (by decide +kernel)
  have h_one := h .csv Server.twoReaders Server.twoLines
    ⟨by decide, by decide, by decide, by decide⟩ ⟨fun _ _ _ => rfl, fun _ _ => rfl⟩ 0 (by decide)
    s h_run h_returned
  rw [h_two] at h_one
  exact absurd h_one (by decide)

/-- **Nobody is left waiting** exactly if no producer returns early. On the client, once all receive
threads have exited, every decompressor has its marker and none waits for an item that does not
come, exactly if all receive threads could connect; on the server, once all read threads have
exited, every deserializer has its marker exactly if all read threads could open the file. -/
theorem stage_signals_iff {env : Client.RuntimeEnv} {ext : Client.External}
    (h_staff : Client.Staffed env) {senv : Server.RuntimeEnv} {sext : Server.External}
    (h_server : Server.Staffed senv) :
    (∀ s : State (Client.machine env ext), Reachable _ never (Client.initial env ext) s →
      (∀ i : Fin env.rcvParallelism, (s.thread ⟨0, i⟩).Exited) →
      ((env.decompParallelism ≤ markers s 1 ∧
          ∀ i : Fin env.decompParallelism, ¬ Starves s ⟨1, i⟩) ↔
        ∀ i < env.rcvParallelism, ext.connects i = true)) ∧
    ∀ s : State (Server.machine .csv senv sext),
      Reachable _ never (Server.initial .csv senv sext) s →
      (∀ i : Fin senv.readParallelism, (s.thread ⟨0, i⟩).Exited) →
      (senv.deserParallelism ≤ markers s 1 ↔
        ∀ i < senv.readParallelism, sext.fileOpens i = true) := by
  constructor
  · intro s h_run h_exited
    have h_iff := Client.receivers_signal_iff h_staff h_run h_exited
    exact ⟨fun h => h_iff.mp h.1, fun h_connected =>
      ⟨h_iff.mpr h_connected, Client.not_starves h_staff h_connected h_run h_exited⟩⟩
  · exact fun s h_run h_exited => Server.readers_signal_iff h_server h_run h_exited

/-- The one receive thread has exited; the decompressor will find its marker. -/
theorem stage_signals_smallEnv :
    ∃ s, Reachable (Client.machine Client.smallEnv (Client.zstdStream 1)) never
        (Client.initial Client.smallEnv (Client.zstdStream 1)) s ∧
      s.queue 1 = [marker] ∧ 1 ≤ markers s 1 := by
  obtain ⟨s, h_run, h_exited, h_queue⟩ := Client.exists_reachable Client.smallEnv
    (Client.zstdStream 1) (fun _ _ => False) (Client.initial Client.smallEnv (Client.zstdStream 1))
    Client.receiveRun (fun s => (∀ i : Fin 1, (s.thread ⟨0, i⟩).Exited) ∧ s.queue 1 = [marker])
    (by decide +kernel)
  have h_client : Client.Staffed Client.smallEnv :=
    ⟨by decide, by decide, by decide, by decide⟩
  have h_server : Server.Staffed Server.twoReaders :=
    ⟨by decide, by decide, by decide, by decide⟩
  have h_iff := (@stage_signals_iff Client.smallEnv (Client.zstdStream 1) h_client
    Server.twoReaders Server.twoLines h_server).1 s h_run h_exited
  exact ⟨s, h_run, h_queue, (h_iff.mpr fun _ _ => rfl).1⟩

/-- The one receive thread cannot connect. -/
def refused : Client.External where
  connects _ := false
  decoders := Client.storingDecoders

/-- Then it returns at once, and the decompressor waits for good. -/
theorem stage_strands :
    ¬ ∀ (env : Client.RuntimeEnv) (ext : Client.External), Client.Staffed env →
      ∀ s : State (Client.machine env ext), Reachable _ never (Client.initial env ext) s →
      (∀ i : Fin env.rcvParallelism, (s.thread ⟨0, i⟩).Exited) →
      env.decompParallelism ≤ markers s 1 ∧
        ∀ i : Fin env.decompParallelism, ¬ Starves s ⟨1, i⟩ := by
  intro h
  obtain ⟨s, h_run, h_exited, h_none⟩ := Client.exists_reachable Client.smallEnv refused
    (fun _ _ => False) (Client.initial Client.smallEnv refused) [Client.worker 0 0]
    (fun s => (∀ i : Fin 1, (s.thread ⟨0, i⟩).Exited) ∧ markers s 1 = 0) (by decide +kernel)
  have h_one := (h Client.smallEnv refused ⟨by decide, by decide, by decide, by decide⟩ s h_run
    h_exited).1
  rw [h_none] at h_one
  exact absurd h_one (by decide)

end Xdbc
