import Xdbc.Server.Shutdown
import Xdbc.Pipeline.Markers

/-!
# The end markers of the server

How many end markers the stages of the server push: `marking` discharges the obligations of the
pipeline library, also where a read thread cannot open the file. Such a thread returns without
having reported (`parked`), and then its stage never reports as a whole.

For the markers of the read threads even the runs need not be restricted: when a deserialization
thread takes a marker for its first buffer, the read threads have all reported, and what they have
promised by then is what they will have pushed (`marked_or_promised`).
-/

namespace Xdbc.Server

open Bytes Pipeline

variable (src : Source) (env : RuntimeEnv) (ext : External)

/-! ### Read threads that cannot open the file -/

/-- A read thread that cannot open the file gets nowhere. -/
def parked : (t : Tid 4 (parallelism env)) → Local src t.1 → Prop
  | ⟨0, i⟩, l => match src with
    | .csv => ext.fileOpens i = false → (l : ReadCSV) = .start
    | .postgres => True
    | .parquet => True
  | ⟨1, _⟩, _ => True
  | ⟨2, _⟩, _ => True
  | ⟨3, _⟩, _ => True

variable {src env ext} in
theorem parked_of_ne {t : Tid 4 (parallelism env)} (h : t.1 ≠ 0) (l : Local src t.1) :
    parked src env ext t l := by
  obtain ⟨k, i⟩ := t
  match k with
  | 0 => exact absurd rfl h
  | 1 => trivial
  | 2 => trivial
  | 3 => trivial

theorem readCSV_stays {σ : Type} (thr : ℕ) (bad : ReadCSV → Prop) {l : ReadCSV}
    (h : ext.fileOpens thr = false → l = .start) :
    Stays (fun l => ext.fileOpens thr = false → l = .start) bad (readCSV (σ := σ) env ext thr l) := by
  by_cases h_open : ext.fileOpens thr = true
  · exact .of_forall (fun l => by simp [h_open]) _ _
  · rw [Bool.not_eq_true] at h_open
    rw [h h_open]
    simp [readCSV, h_open, Stays]

variable {env ext} in
/-- A read thread that can open the file reports. -/
theorem readCSV_ne_quit {σ : Type} {thr : ℕ} (h_open : ext.fileOpens thr = true) {l : ReadCSV} :
    readCSV (σ := σ) env ext thr l ≠ .quit := by
  intro h
  cases l with
  | start => simp only [readCSV, h_open, if_true] at h; cases h
  | next r part =>
    simp only [readCSV] at h
    repeat' split at h
    all_goals cases h
  | _ => cases h

/-- What a program does with the markers does not depend on whether the file can be opened. -/
theorem readCSV_signs {σ : Type} (thr : ℕ) (bad : ReadCSV → Prop) {l : ReadCSV}
    (h_none : NoMarker ReadCSV.held l) (h : ext.fileOpens thr = false → l = .start) :
    Signs 4 0 (Reader.ended .csv) bad l (readCSV (σ := σ) env ext thr l) := by
  by_cases h_open : ext.fileOpens thr = true
  · exact (readCSV_orderly env ext thr h_open bad l).signs
      (readCSV_honest env ext thr bad l h_none)
  · rw [Bool.not_eq_true] at h_open
    rw [h h_open]
    simp [readCSV, h_open, Signs]

/-! ### The server's markers -/

theorem prog_signs (bad : (t : Tid 4 (parallelism env)) → Local src t.1 → Prop)
    (h_bad : ∀ t l, sentinelTaken src env t l → bad t l) (t : Tid 4 (parallelism env))
    (l : Local src t.1) (h_sound : Sound src env ext t l) (h_parked : parked src env ext t l) :
    Signs 4 t.1 (ended src t.1) (bad t) l ((machine src env ext).prog t l) := by
  have h_honest := (custody src env ext bad h_bad).honest t l h_sound
  obtain ⟨k, i⟩ := t
  match k, i, l, h_sound, h_parked, h_honest with
  | 0, i, l, h_sound, h_parked, h_honest =>
    cases src with
    | csv => exact readCSV_signs env ext i (bad ⟨0, i⟩) h_sound h_parked
    | postgres => exact (readPG_orderly env ext (bad ⟨0, i⟩) l).signs h_honest
    | parquet => exact (readPQ_orderly env ext (bad ⟨0, i⟩) l).signs h_honest
  | 1, i, l, h_sound, h_parked, h_honest =>
    have h_one := h_bad ⟨1, i⟩
    cases src with
    | csv =>
      exact (deserializeText_orderly env ext csvText (bad ⟨1, i⟩) h_one l).signs h_honest
    | postgres =>
      exact (deserializeText_orderly env ext pgText (bad ⟨1, i⟩) h_one l).signs h_honest
    | parquet => exact (deserializePQ_orderly env ext (bad ⟨1, i⟩) h_one l).signs h_honest
  | 2, i, l, h_sound, h_parked, h_honest =>
    exact (compress_orderly env ext (bad ⟨2, i⟩) l).signs h_honest
  | 3, i, l, h_sound, h_parked, h_honest => exact (send_orderly ext i (bad ⟨3, i⟩) l).signs h_honest

theorem prog_stays_parked (bad : (t : Tid 4 (parallelism env)) → Local src t.1 → Prop)
    (t : Tid 4 (parallelism env)) (l : Local src t.1) (h : parked src env ext t l) :
    Stays (parked src env ext t) (bad t) ((machine src env ext).prog t l) := by
  by_cases h_stage : t.1 = 0
  · obtain ⟨k, i⟩ := t
    obtain rfl : k = 0 := h_stage
    cases src with
    | csv => exact readCSV_stays env ext i (bad ⟨0, i⟩) h
    | postgres => exact .of_forall (fun _ => trivial) _ _
    | parquet => exact .of_forall (fun _ => trivial) _ _
  · exact .of_forall (fun l => parked_of_ne h_stage l) _ _

/-- The server's programs do with the markers what they must. -/
def marking : Marking (machine src env ext) (sentinelTaken src env) where
  ended := ended src
  wf t l := Sound src env ext t l ∧ parked src env ext t l
  signs t l h := prog_signs src env ext _ (fun _ _ h => h) t l h.1 h.2
  stays t l h := by
    have h_honest := (custody src env ext (sentinelTaken src env) fun _ _ h => h).honest t l h.1
    exact h_honest.stays.and (prog_stays_parked src env ext _ t l h.2)

theorem parked_startPoint (t : Tid 4 (parallelism env)) :
    parked src env ext t (startPoint src t.1) := by
  obtain ⟨k, i⟩ := t
  match k with
  | 0 =>
    cases src with
    | csv => exact fun _ => rfl
    | postgres => trivial
    | parquet => trivial
  | 1 => trivial
  | 2 => trivial
  | 3 => trivial

/-- When the threads start, no marker has been pushed. -/
theorem marked_initial (h_staff : Staffed env) :
    (marking src env ext).Marked (initial src env ext) := by
  refine (marking src env ext).marked_initial
    (fun t => ⟨sound_startPoint src env ext t, parked_startPoint src env ext t⟩)
    (fun k hk => h_staff.pos k (by omega))
    (fun t => ⟨_, rfl, ended_startPoint src t.1⟩) (fun q hq => ?_) (by decide) (fun _ => rfl) rfl
  change marker ∉ initialQueue env q
  match q, hq with
  | 0, _ => exact marker_notMem_firstIds _
  | 1, _ => exact List.not_mem_nil
  | 2, _ => exact List.not_mem_nil
  | 3, _ => exact List.not_mem_nil

/-- A schedule of the server's threads in turn that ends in a state satisfying a decidable test. -/
theorem exists_inTurn (bad : (t : Tid 4 (parallelism env)) → Local src t.1 → Prop)
    [h_dec : ∀ t l, Decidable (bad t l)] (k : ℕ) (ts : List (Tid 4 (parallelism env)))
    (p : State (machine src env ext) → Prop) [DecidablePred p]
    (h : ((@execInTurn _ _ _ _ (machine src env ext) bad h_dec k (initial src env ext) ts).any
      fun s => decide (p s)) = true) :
    ∃ s, InTurn (machine src env ext) bad k (initial src env ext) s ∧ p s :=
  @exists_inTurn_of_execInTurn _ _ _ _ (machine src env ext) bad h_dec k _ ts p _ h

/-! ### The marker taken for a buffer -/

section Taken

variable {src env ext}

/-- The operation leads to a marker taken for a buffer only by popping one. -/
def FindsMarker {L₀ : Type} (taken : L₀ → Prop) : Op L₀ Buffer Sockets → Prop
  | .pop q k => ∀ v, taken (k v) → q = 1 ∧ v = marker
  | .push _ _ l' => ¬ taken l'
  | .work _ f => ∀ m, ¬ taken (f m).2
  | .leave => True
  | .quit => True

theorem deserializeText_findsMarker (X : TextSource) {l : Deser} (h_none : NoMarker Deser.held l) :
    FindsMarker Deser.TakesMarker (deserializeText X env ext l) := by
  have h_ne : ∀ d : DeserVars, d.inBid ∈ l.held → d.inBid ≠ marker := fun d hd => h_none _ hd
  cases l with
  | start =>
    simp only [deserializeText]
    split
    · intro v hv
      -- the pops of `start` bring a marker that ends the thread
      dsimp only at hv
      split at hv <;> exact hv.elim
    · exact fun v hv => hv.elim
  | popIn o => exact fun v hv => ⟨rfl, hv⟩
  | row d =>
    have h_in := h_ne d (by simp [Deser.held])
    intro m
    -- the step of a row keeps both buffers
    simp only [DeserVars.step]
    repeat' split
    all_goals first | exact h_in | exact id
  | flushPop d => exact fun v hv => absurd hv (h_ne d (by simp [Deser.held]))
  | nextIn d =>
    intro v hv
    dsimp only at hv
    split at hv
    · exact hv.elim
    · -- the marker ends the loop and is not taken for a buffer
      next hm => exact absurd hv hm
  | rest d =>
    simp only [deserializeText]
    split
    · exact fun m => id
    · split
      · intro m
        dsimp only
        split <;> exact id
      · exact fun m => id
  | _ => simp [deserializeText, FindsMarker, Deser.TakesMarker]

theorem deserializePQ_findsMarker {l : DeserPQ} :
    FindsMarker DeserPQ.TakesMarker (deserializePQ env ext l) := by
  cases l with
  | start =>
    simp only [deserializePQ]
    split
    · intro v hv
      dsimp only at hv
      split at hv <;> exact hv.elim
    · -- the first pop takes the marker for a buffer
      exact fun v hv => ⟨rfl, hv⟩
  | openStream d =>
    intro m
    dsimp only
    split <;> exact id
  | row d =>
    simp only [deserializePQ]
    split
    · exact fun m => id
    · intro m
      dsimp only
      split <;> exact id
  | nextIn d =>
    intro v hv
    dsimp only at hv
    split at hv <;> exact hv.elim
  | rest d =>
    simp only [deserializePQ]
    split <;> exact fun m => id
  | _ => simp [deserializePQ, FindsMarker, DeserPQ.TakesMarker]

theorem findsMarker_of_never {L₀ : Type} {taken : L₀ → Prop} (h : ∀ l, ¬ taken l)
    (op : Op L₀ Buffer Sockets) : FindsMarker taken op := by
  cases op <;> simp [FindsMarker, h]

/-- No other thread takes a marker for a buffer. -/
theorem findsMarker (t : Tid 4 (parallelism env)) (l : Local src t.1)
    (h_sound : Sound src env ext t l) :
    FindsMarker (sentinelTaken src env t) ((machine src env ext).prog t l) := by
  obtain ⟨k, i⟩ := t
  match k, i, l, h_sound with
  | 1, _, l, h_sound =>
    cases src with
    | csv => exact deserializeText_findsMarker csvText h_sound.1
    | postgres => exact deserializeText_findsMarker pgText h_sound.1
    | parquet => exact deserializePQ_findsMarker
  | 0, _, _, _ => exact findsMarker_of_never (fun _ => id) _
  | 2, _, _, _ => exact findsMarker_of_never (fun _ => id) _
  | 3, _, _, _ => exact findsMarker_of_never (fun _ => id) _

/-- A thread that holds no marker has not taken one for a buffer. -/
theorem not_sentinelTaken {t : Tid 4 (parallelism env)} {l : Local src t.1}
    (h_sound : Sound src env ext t l) : ¬ sentinelTaken src env t l := by
  obtain ⟨k, i⟩ := t
  match k, i, l, h_sound with
  | 0, _, _, _ => exact id
  | 1, _, l, h_sound =>
    -- a marker taken for a buffer would be in hand
    have h_text : ∀ l : Deser, NoMarker Deser.held l → ¬ l.TakesMarker := by
      intro l h_none h_takes
      cases l with
      | row d => exact h_none d.inBid (by simp [Deser.held]) h_takes
      | _ => exact h_takes
    cases src with
    | csv => exact h_text l h_sound.1
    | postgres => exact h_text l h_sound.1
    | parquet =>
      intro h_takes
      have h_none : NoMarker DeserPQ.held l := h_sound.1
      cases l with
      | popOut b => exact h_none b (by simp [DeserPQ.held]) h_takes
      | _ => exact h_takes
  | 2, _, _, _ => exact id
  | 3, _, _, _ => exact id

/-- When a deserialization thread takes an end marker for a buffer, the marker was the first of its
queue, and nothing is pushed. -/
theorem marker_of_sentinelTaken {s s' : State (machine src env ext)}
    {t : Tid 4 (parallelism env)} (h_wf : Sound src env ext t (s.thread t).loc)
    (hstep : Step (machine src env ext) s t s')
    (h_taken : sentinelTaken src env t (s'.thread t).loc) :
    marker ∈ s.queue 1 ∧ s'.log = s.log := by
  have h_finds := findsMarker t _ h_wf
  obtain ⟨l, hrun, h_op⟩ := hstep.enters (not_sentinelTaken h_wf) h_taken
  rw [hrun, Thread.loc_running] at h_finds
  rcases h_op with ⟨q, k, v, rest, hop, hq, h_log, h_next⟩ | ⟨q, v, l', hop, h_next⟩ |
    ⟨bs, f, hop, h_next⟩
  · rw [hop] at h_finds
    obtain ⟨rfl, rfl⟩ := h_finds v h_next
    exact ⟨by rw [hq]; exact List.mem_cons_self, h_log⟩
  · rw [hop] at h_finds
    exact absurd h_next h_finds
  · rw [hop] at h_finds
    exact absurd h_next (h_finds s.mem)

/-- When a deserialization thread takes an end marker for a buffer, the read threads have promised
theirs. -/
theorem promised_of_sentinelTaken {s s' : State (machine .csv env ext)}
    {t : Tid 4 (parallelism env)} (h : (marking .csv env ext).Marked s)
    (hstep : Step (machine .csv env ext) s t s')
    (h_taken : sentinelTaken .csv env t (s'.thread t).loc) :
    Promised 0 env.deserParallelism s := by
  exact h.promised_of_marker_mem _ (by decide)
    (marker_of_sentinelTaken (h.wf t).1 hstep h_taken).1

/-- A read thread that has reported could open the file. -/
theorem opens_of_reported {s : State (machine .csv env ext)} (h : (marking .csv env ext).Marked s)
    {i : Fin env.readParallelism} (h_reported : (s.thread ⟨0, i⟩).reported = 1) :
    ext.fileOpens i = true := by
  by_contra h_not
  rw [Bool.not_eq_true] at h_not
  have h_start : (s.thread ⟨0, i⟩).loc = ReadCSV.start := (h.wf ⟨0, i⟩).2 h_not
  have h_leave := (h.stopped ⟨0, i⟩).leave h_reported
  rw [h_start] at h_leave
  change readCSV env ext i .start = .leave at h_leave
  simp [readCSV, h_not] at h_leave

/-- **Run lemma.** In every run the markers are in order, or the read threads have promised
theirs. -/
theorem marked_or_promised (h_staff : Staffed env) {s : State (machine .csv env ext)}
    (h_run : Reachable (machine .csv env ext) never (initial .csv env ext) s) :
    (marking .csv env ext).Marked s ∨
      Opens .csv env ext ∧ Promised 0 env.deserParallelism s := by
  refine h_run.invariant (I := fun s => (marking .csv env ext).Marked s ∨
    Opens .csv env ext ∧ Promised 0 env.deserParallelism s) (.inl (marked_initial _ _ _ h_staff)) ?_
  rintro s t s' (h_marked | ⟨h_open, h_promised⟩) hstep -
  · by_cases h_taken : sentinelTaken .csv env t (s'.thread t).loc
    · have h_promised := promised_of_sentinelTaken h_marked hstep h_taken
      exact .inr ⟨fun _ i hi => opens_of_reported (i := ⟨i, hi⟩) h_marked
        (h_promised.reported ⟨0, i, hi⟩ rfl), h_promised.step hstep⟩
    · exact .inl (h_marked.step _ hstep h_taken)
  · exact .inr ⟨h_open, h_promised.step hstep⟩

/-- **The read threads wake the deserializers up**, when they have exited, exactly if all of them
could open the file. -/
theorem readers_signal_iff (h_staff : Staffed env) {s : State (machine .csv env ext)}
    (h_run : Reachable (machine .csv env ext) never (initial .csv env ext) s)
    (h_exited : ∀ i : Fin env.readParallelism, (s.thread ⟨0, i⟩).Exited) :
    env.deserParallelism ≤ markers s 1 ↔ ∀ i < env.readParallelism, ext.fileOpens i = true := by
  have h_exited : ∀ t : Tid 4 (parallelism env), (t.1 : ℕ) = 0 → (s.thread t).Exited := by
    rintro ⟨k, i⟩ h_zero
    obtain rfl : k = 0 := Fin.ext h_zero
    exact h_exited i
  -- no reader has quit, or all files open and the markers are promised
  rcases marked_or_promised h_staff h_run with h_marked | ⟨h_open, h_promised⟩
  · refine (h_marked.pushed_iff _ (k := 0) (by decide) h_staff.deser h_exited).trans ?_
    constructor
    · intro h_normal i hi
      by_contra h_not
      rw [Bool.not_eq_true] at h_not
      -- a reader whose file does not open has quit
      have h_start : (s.thread ⟨0, i, hi⟩).loc = ReadCSV.start :=
        (h_marked.wf ⟨0, i, hi⟩).2 h_not
      refine h_normal ⟨0, i, hi⟩ rfl ?_
      rw [h_start]
      change readCSV env ext i .start = .quit
      simp [readCSV, h_not]
    · rintro h_open ⟨k, i⟩ h_zero
      obtain rfl : k = 0 := Fin.ext h_zero
      exact readCSV_ne_quit (h_open i i.2)
  · exact ⟨fun _ => h_open rfl, fun _ => h_promised.pushed_of_exited h_exited⟩

end Taken

end Xdbc.Server
