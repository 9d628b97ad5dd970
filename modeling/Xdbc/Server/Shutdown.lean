import Xdbc.Server.Ownership
import Xdbc.Pipeline.Signals

/-!
# How the server shuts down

The server's programs keep the order of the end markers: `signals` discharges the obligations of the
pipeline library, provided that the read threads can open the file: a read thread that cannot
returns without having reported. A send thread whose socket fails returns before it has seen an end
marker (`signals_clean`).
-/

namespace Xdbc.Server

open Bytes Pipeline

/-! ### The program points behind the end marker -/

/-- A read thread that has taken the end marker of the partitions does not count. -/
def Reader.ended (src : Source) (_ : Reader src) : Bool := false

/-- The thread has taken an end marker. An exception in the last record batch leaves it without an
input buffer. -/
def Deser.ended : Deser → Bool
  | .rest _ => true
  | .restPush _ => true
  | .done _ => true
  | .thrown i _ => i.isNone
  | _ => false

/-- The thread has taken an end marker. -/
def DeserPQ.ended : DeserPQ → Bool
  | .rest _ => true
  | .restPush _ => true
  | .done _ => true
  | _ => false

/-- The thread has taken an end marker. -/
def Comp.ended : Comp → Bool
  | .done => true
  | _ => false

/-- The thread has taken an end marker. -/
def Send.ended : Send → Bool
  | .done => true
  | _ => false

/-- The program point is behind the end marker. -/
def ended (src : Source) : (k : Fin 4) → Local src k → Bool
  | 0 => Reader.ended src
  | 1 => match src with
    | .csv => Deser.ended
    | .postgres => Deser.ended
    | .parquet => DeserPQ.ended
  | 2 => Comp.ended
  | 3 => Send.ended

/-! ### Every program is orderly -/

section Programs

variable {σ : Type} (env : RuntimeEnv) (ext : External)

theorem readCSV_orderly (thr : ℕ) (h_open : ext.fileOpens thr = true) (bad : ReadCSV → Prop)
    (l : ReadCSV) :
    Orderly (σ := σ) 4 0 (Reader.ended .csv) bad l (readCSV env ext thr l) := by
  cases l with
  | start => simp [readCSV, h_open, Orderly, Reader.ended]
  | next r p =>
    simp only [readCSV]
    split
    · split
      · simp [Orderly, Reader.ended]
      · split <;> simp [Orderly, Reader.ended]
    · simp [Orderly, Reader.ended]
  | _ => simp [readCSV, Orderly, Reader.ended, partQueue]

theorem readPG_orderly (bad : ReadPG → Prop) (l : ReadPG) :
    Orderly (σ := σ) 4 0 (Reader.ended .postgres) bad l (readPG env ext l) := by
  cases l with
  | row r rows =>
    cases rows with
    | nil => simp [readPG, Orderly, Reader.ended]
    | cons row rows =>
      simp only [readPG]
      split
      · simp [Orderly, Reader.ended]
      · split <;> simp [Orderly, Reader.ended]
  | _ => simp [readPG, Orderly, Reader.ended, partQueue]

theorem readPQ_orderly (bad : ReadPQ → Prop) (l : ReadPQ) :
    Orderly (σ := σ) 4 0 (Reader.ended .parquet) bad l (readPQ env ext l) := by
  cases l with
  | file p i =>
    simp only [readPQ]
    split
    · split <;> simp [Orderly, Reader.ended]
    · simp [Orderly, Reader.ended]
  | load p i contents b => simp [readPQ, Orderly, Reader.ended]
  | _ => simp [readPQ, Orderly, Reader.ended, partQueue]

/-- A round of the loop over the rows does not end it. -/
theorem DeserVars.step_ended (X : TextSource) (d : DeserVars) (m : Memory Buffer σ) :
    (d.step X env ext m).2.ended = false := by
  simp only [DeserVars.step]
  repeat' split
  all_goals rfl

theorem deserializeText_orderly (X : TextSource) (bad : Deser → Prop)
    (h_bad : ∀ l, Deser.TakesMarker l → bad l) (l : Deser) :
    Orderly (σ := σ) 4 1 Deser.ended bad l (deserializeText X env ext l) := by
  cases l with
  | start =>
    simp only [deserializeText]
    split
    · refine ⟨by simp [Deser.ended], fun v _ => ?_⟩
      by_cases hv : v = marker <;> simp [Deser.ended, hv]
    · simp [Orderly, Deser.ended]
  -- a marker taken for a buffer is what `h_bad` excludes
  | popIn o =>
    have h_marker : bad (.row ⟨o, marker, 0, 0, []⟩) := h_bad _ rfl
    refine ⟨by simp [Deser.ended], fun v h_not => ?_⟩
    have hv : v ≠ marker := by rintro rfl; exact h_not h_marker
    simp [Deser.ended, hv]
  | row d => exact fun m _ => d.step_ended env ext X m
  | nextIn d =>
    refine ⟨by simp [Deser.ended], fun v _ => ?_⟩
    dsimp only
    split <;> simp_all [Deser.ended]
  | rest d =>
    simp only [deserializeText]
    split
    · simp [Orderly, Deser.ended]
    · split
      · intro m _
        dsimp only
        split <;> simp [Deser.ended]
      · simp [Orderly, Deser.ended]
  | _ => simp [deserializeText, Orderly, Deser.ended]

theorem deserializePQ_orderly (bad : DeserPQ → Prop)
    (h_bad : ∀ l, DeserPQ.TakesMarker l → bad l) (l : DeserPQ) :
    Orderly (σ := σ) 4 1 DeserPQ.ended bad l (deserializePQ env ext l) := by
  cases l with
  | start =>
    simp only [deserializePQ]
    split
    · refine ⟨by simp [DeserPQ.ended], fun v _ => ?_⟩
      by_cases hv : v = marker <;> simp [DeserPQ.ended, hv]
    · -- here it is the first pop that must not bring the marker
      have h_marker : bad (.popOut marker) := h_bad _ rfl
      refine ⟨by simp [DeserPQ.ended], fun v h_not => ?_⟩
      have hv : v ≠ marker := by rintro rfl; exact h_not h_marker
      simp [DeserPQ.ended, hv]
  | openStream d =>
    intro m _
    dsimp only
    split <;> rfl
  | row d =>
    simp only [deserializePQ]
    split
    · simp [Orderly, DeserPQ.ended]
    · intro m _
      dsimp only
      split <;> rfl
  | nextIn d =>
    refine ⟨by simp [DeserPQ.ended], fun v _ => ?_⟩
    dsimp only
    split <;> simp_all [DeserPQ.ended]
  | rest d =>
    simp only [deserializePQ]
    split <;> simp [Orderly, DeserPQ.ended]
  | _ => simp [deserializePQ, Orderly, DeserPQ.ended]

theorem compress_orderly (bad : Comp → Prop) (l : Comp) :
    Orderly (σ := σ) 4 2 Comp.ended bad l (compress env ext l) := by
  cases l with
  | popIn =>
    refine ⟨by simp [Comp.ended], fun v _ => ?_⟩
    dsimp only
    split
    · simp_all [Comp.ended]
    · split <;> simp_all [Comp.ended]
  | compress b o =>
    intro m _
    dsimp only
    split <;> rfl
  | _ => simp [compress, Orderly, Comp.ended]

theorem send_orderly (thr : ℕ) (bad : Send → Prop) (l : Send) :
    Orderly 4 3 Send.ended bad l (send ext thr l) := by
  cases l with
  | popIn j =>
    refine ⟨by simp [Send.ended], fun v _ => ?_⟩
    dsimp only
    split <;> simp_all [Send.ended]
  | write j b =>
    simp only [send]
    split <;> exact fun _ _ => rfl
  | _ => simp [send, Orderly, Send.ended]

end Programs

/-! ### The server's signals -/

variable (src : Source) (env : RuntimeEnv) (ext : External)

/-- The read threads can open the file. -/
def Opens : Prop := src = .csv → ∀ i < env.readParallelism, ext.fileOpens i = true

/-- What may go wrong outside of the server does not: the read threads can open the file, and no
write to a socket fails. -/
structure Undisturbed : Prop where
  opens : Opens src env ext
  sends : ∀ i j, ext.sendFails i j = false

variable {src env ext} in
/-- The server's programs keep the order of the end markers. -/
def signals (h_open : Opens src env ext)
    (bad : (t : Tid 4 (parallelism env)) → Local src t.1 → Prop)
    (h_bad : ∀ t l, sentinelTaken src env t l → bad t l) :
    Signals (custody src env ext bad h_bad) where
  ended := ended src
  orderly := by
    rintro ⟨k, i⟩ l h_wf
    match k, i, l, h_wf with
    | 0, i, l, h_wf =>
      cases src with
      | csv => exact readCSV_orderly env ext i (h_open rfl i i.2) (bad ⟨0, i⟩) l
      | postgres => exact readPG_orderly env ext (bad ⟨0, i⟩) l
      | parquet => exact readPQ_orderly env ext (bad ⟨0, i⟩) l
    | 1, i, l, h_wf =>
      have h_one := h_bad ⟨1, i⟩
      cases src with
      | csv => exact deserializeText_orderly env ext csvText (bad ⟨1, i⟩) h_one l
      | postgres => exact deserializeText_orderly env ext pgText (bad ⟨1, i⟩) h_one l
      | parquet => exact deserializePQ_orderly env ext (bad ⟨1, i⟩) h_one l
    | 2, i, l, h_wf => exact compress_orderly env ext (bad ⟨2, i⟩) l
    | 3, i, l, h_wf => exact send_orderly ext i (bad ⟨3, i⟩) l

variable {src env ext} in
/-- Without socket errors no thread returns early. -/
theorem signals_clean (h : Undisturbed src env ext)
    {bad : (t : Tid 4 (parallelism env)) → Local src t.1 → Prop}
    {h_bad : ∀ t l, sentinelTaken src env t l → bad t l} :
    (signals h.opens bad h_bad).Clean := by
  rintro ⟨k, i⟩ l h_wf h_quit h_pos
  have h_orderly := (signals h.opens bad h_bad).orderly ⟨k, i⟩ l h_wf
  rw [h_quit] at h_orderly
  obtain rfl : k = 3 := Fin.ext (by simpa using show (k : ℕ) + 1 = 4 from h_orderly)
  change send ext i l = .quit at h_quit
  cases l with
  | done => rfl
  | boostError b =>
    obtain ⟨j, h_fails⟩ := h_wf.2 b rfl
    exact absurd h_fails (by simp [h.sends])
  | write j b => simp [send, h.sends] at h_quit
  | _ => simp [send] at h_quit

theorem ended_startPoint (k : Fin 4) : ended src k (startPoint src k) = false := by
  match k with
  | 0 => rfl
  | 1 => cases src <;> rfl
  | 2 => rfl
  | 3 => rfl

/-- All stages have a thread. -/
structure Staffed : Prop where
  read : 1 ≤ env.readParallelism
  deser : 1 ≤ env.deserParallelism
  compress : 1 ≤ env.compressionParallelism
  send : 1 ≤ env.networkParallelism

variable {env} in
theorem Staffed.pos (h : Staffed env) (k : ℕ) (hk : k < 4) : 0 < parallelism env k := by
  match k, hk with
  | 0, _ => exact h.read
  | 1, _ => exact h.deser
  | 2, _ => exact h.compress
  | 3, _ => exact h.send

variable {src env ext} in
/-- When the threads start, every hand-off is in order. -/
theorem handed_initial (h_staff : Staffed env) (h_open : Opens src env ext)
    {bad : (t : Tid 4 (parallelism env)) → Local src t.1 → Prop}
    {h_bad : ∀ t l, sentinelTaken src env t l → bad t l} :
    (signals h_open bad h_bad).Handed (initial src env ext) := by
  refine (signals h_open bad h_bad).handed_initial (fun k hk => h_staff.pos k (by omega))
    (fun t => ⟨_, rfl, ended_startPoint src t.1⟩) (fun k hk => ?_) fun _ => rfl
  change marker ∉ initialQueue env (k + 1)
  match k, hk with
  | 0, _ => exact List.not_mem_nil
  | 1, _ => exact List.not_mem_nil
  | 2, _ => exact List.not_mem_nil

end Xdbc.Server
