import Xdbc.Client.Ownership
import Xdbc.Pipeline.Signals

/-!
# How the client shuts down

The client's programs keep the order of the end markers: `signals` discharges the obligations of the
pipeline library, provided that the receive threads can connect: a receive thread that cannot
returns without having reported.
-/

namespace Xdbc.Client

open Bytes Pipeline

/-! ### The program points behind the end marker -/

/-- The thread has taken an end marker. -/
def Decomp.ended : Decomp → Bool
  | .done => true
  | _ => false

/-- The thread has taken an end marker. -/
def Ser.ended : Ser → Bool
  | .done => true
  | _ => false

/-- The thread has taken an end marker. -/
def Write.ended : Write → Bool
  | .done => true
  | _ => false

/-- The program point is behind the end marker. -/
def ended : (k : Fin 4) → Local k → Bool
  | 0 => fun _ => false
  | 1 => Decomp.ended
  | 2 => Ser.ended
  | 3 => Write.ended

/-! ### Every program is orderly -/

section Programs

variable {σ : Type} (env : RuntimeEnv) (ext : External)

theorem receive_orderly (thr : ℕ) (h_connects : ext.connects thr = true) (bad : Receive → Prop)
    (l : Receive) : Orderly (σ := σ) 4 0 (fun _ => false) bad l (receive ext thr l) := by
  cases l with
  | start => simp [receive, h_connects, Orderly]
  | readSocket ps b => cases ps <;> simp [receive, Orderly]
  | _ => simp [receive, Orderly]

theorem decompress_orderly (bad : Decomp → Prop) (l : Decomp) :
    Orderly (σ := σ) 4 1 Decomp.ended bad l (decompress env ext l) := by
  cases l with
  | popIn e =>
    refine ⟨by simp [Decomp.ended], fun v _ => ?_⟩
    dsimp only
    split <;> simp_all [Decomp.ended]
  | inspect e b =>
    intro m _
    dsimp only
    split <;> rfl
  | decompress e b o =>
    intro m _
    dsimp only
    split <;> split <;> rfl
  | _ => simp [decompress, Orderly, Decomp.ended]

theorem serialize_orderly (bad : Ser → Prop) (l : Ser) :
    Orderly (σ := σ) 4 2 Ser.ended bad l (serialize env ext l) := by
  cases l with
  | popIn =>
    refine ⟨by simp [Ser.ended], fun v _ => ?_⟩
    dsimp only
    split
    · simp_all [Ser.ended]
    · split <;> simp_all [Ser.ended]
  | inspect b =>
    intro m _
    simp only [inspectHeader]
    repeat' split
    all_goals rfl
  | row d =>
    simp only [serialize]
    repeat' split
    all_goals exact fun _ _ => rfl
  | pqOpen b n o =>
    intro m _
    dsimp only
    split <;> rfl
  | pqRow d =>
    simp only [serialize]
    split
    · intro m _
      simp only [PqSerVars.emitRow]
      split <;> rfl
    · split <;> exact fun _ _ => rfl
  | _ => simp [serialize, Orderly, Ser.ended, SerVars.emitRow]

theorem write_orderly (thr : ℕ) (bad : Write → Prop) (l : Write) :
    Orderly 4 3 Write.ended bad l (write ext thr l) := by
  cases l with
  | start =>
    intro m _
    dsimp only
    split <;> rfl
  | popIn =>
    refine ⟨by simp [Write.ended], fun v _ => ?_⟩
    dsimp only
    split <;> simp_all [Write.ended]
  | _ => simp [write, Orderly, Write.ended]

end Programs

/-! ### The client's signals -/

variable (env : RuntimeEnv) (ext : External)

/-- All receive threads can connect. -/
def Connected : Prop := ∀ i < env.rcvParallelism, ext.connects i = true

variable {env ext} in
/-- The client's programs keep the order of the end markers. -/
def signals (h_connected : Connected env ext)
    (bad : (t : Tid 4 (parallelism env)) → Local t.1 → Prop)
    (h_bad : ∀ t l, leaks env t l → bad t l) : Signals (custody env ext bad h_bad) where
  ended := ended
  orderly := by
    rintro ⟨k, i⟩ l -
    match k, i, l with
    | 0, i, l => exact receive_orderly ext i (h_connected i i.2) (bad ⟨0, i⟩) l
    | 1, i, l => exact decompress_orderly env ext (bad ⟨1, i⟩) l
    | 2, i, l => exact serialize_orderly env ext (bad ⟨2, i⟩) l
    | 3, i, l => exact write_orderly ext i (bad ⟨3, i⟩) l

variable {env ext} in
/-- No thread returns early. -/
theorem signals_clean (h_connected : Connected env ext)
    {bad : (t : Tid 4 (parallelism env)) → Local t.1 → Prop}
    {h_bad : ∀ t l, leaks env t l → bad t l} : (signals h_connected bad h_bad).Clean := by
  rintro ⟨k, i⟩ l h_wf h_quit h_pos
  have h_orderly := (signals h_connected bad h_bad).orderly ⟨k, i⟩ l h_wf
  rw [h_quit] at h_orderly
  obtain rfl : k = 3 := Fin.ext (by simpa using show (k : ℕ) + 1 = 4 from h_orderly)
  change write ext i l = .quit at h_quit
  cases l with
  | done => rfl
  | _ => simp [write] at h_quit

/-- All stages have a thread. -/
structure Staffed : Prop where
  rcv : 1 ≤ env.rcvParallelism
  decomp : 1 ≤ env.decompParallelism
  ser : 1 ≤ env.serParallelism
  write : 1 ≤ env.writeParallelism

variable {env} in
theorem Staffed.pos (h : Staffed env) (k : ℕ) (hk : k < 4) : 0 < parallelism env k := by
  match k, hk with
  | 0, _ => exact h.rcv
  | 1, _ => exact h.decomp
  | 2, _ => exact h.ser
  | 3, _ => exact h.write

variable {env ext} in
/-- When the threads start, every hand-off is in order. -/
theorem handed_initial (h_staff : Staffed env) (h_connected : Connected env ext)
    {bad : (t : Tid 4 (parallelism env)) → Local t.1 → Prop}
    {h_bad : ∀ t l, leaks env t l → bad t l} :
    (signals h_connected bad h_bad).Handed (initial env ext) := by
  refine (signals h_connected bad h_bad).handed_initial (fun k hk => h_staff.pos k (by omega))
    (fun t => ⟨_, rfl, ?_⟩) (fun k hk => ?_) fun _ => rfl
  · obtain ⟨k, i⟩ := t
    match k with
    | 0 => rfl
    | 1 => rfl
    | 2 => rfl
    | 3 => rfl
  · change marker ∉ initialQueue env (k + 1)
    exact List.not_mem_nil

end Xdbc.Client
