import Xdbc.Client.System
import Xdbc.Pipeline.Crew

/-!
# The files of the Parquet sink

Every thread of `PQSink::write` counts the buffers it has written and names its files by that
counter, but all threads write to one folder. So two threads that have both taken a buffer have both
written file 0, and the second one has truncated it. The folder holds one file for each buffer
exactly if all of them have been taken by one thread (`files_kept_iff`).
-/

namespace Xdbc.Client

open Function Bytes Pipeline

/-! ### `PQSink::write` -/

/-- The files of the output folder, by the number in their name. -/
abbrev Folder : Type := ℕ → Option (List UInt8)

/-- What `outputFile.write` at the beginning of a file leaves in it. -/
def overwrite (old data : List UInt8) : List UInt8 := data ++ old.drop data.length

theorem overwrite_nil (data : List UInt8) : overwrite [] data = data := by
  rw [overwrite, List.drop_nil, List.append_nil]

/-- The program points of `PQSink::write`. -/
inductive PqWrite where
  | popIn (fileSuffix : ℕ)
  /-- The file with the number `fileSuffix` is opened. -/
  | openFile (fileSuffix : ℕ) (bufferId : ℤ)
  /-- The payload is written to it. -/
  | write (fileSuffix : ℕ) (bufferId : ℤ)
  | free (fileSuffix : ℕ) (bufferId : ℤ)
  | close (fileSuffix : ℕ)
  | done (fileSuffix : ℕ)
  /-- An exception has ended the thread. -/
  | thrown
  deriving DecidableEq

/-- `PQSink::write`; `opens thr i` says whether the thread can open file `i`. Opening a file
truncates it. -/
def pqWrite (opens : ℕ → ℕ → Bool) (thr : ℕ) : PqWrite → Op PqWrite Buffer Folder
  | .popIn i => .pop 3 fun b => if b = marker then .done i else .openFile i b
  | .openFile i b => .work [] fun m =>
    if opens thr i then ({ m with world := update m.world i (some []) }, .write i b)
    else (m, .thrown)
  | .write i b => .work [b] fun m =>
    let content := overwrite ((m.world i).getD []) (m.pool b).data
    ({ m with world := update m.world i (some content) }, .free (i + 1) b)
  | .free i b => .push 0 b (.close i)
  | .close i => .work [] fun m => (m, .popIn i)
  | .done _ => .quit
  | .thrown => .work [] fun m => (m, .thrown)

/-- The ids the live local variables of `write` name. -/
def PqWrite.held : PqWrite → Multiset ℤ
  | .openFile _ b => {b}
  | .write _ b => {b}
  | .free _ b => {b}
  | _ => 0

/-- The write threads when they start; the constructor of the sink has emptied the folder. -/
def pqWriters (writeParallelism : ℕ) (pool : ℤ → Buffer) :
    Crew writeParallelism PqWrite Buffer Folder where
  queue := []
  mem := ⟨pool, fun _ => none⟩
  thread _ := .popIn 0
  popped := []

/-- All write threads have exited. -/
def AllDone {T : ℕ} (s : Crew T PqWrite Buffer Folder) : Prop := ∀ t, ∃ i, s.thread t = .done i

/-- The folder contains one file for each buffer, with its payload. -/
def OneFileEach (folder : Folder) (bs : List Buffer) : Prop :=
  ∃ name : Fin bs.length → ℕ, Injective name ∧
    (∀ j, folder (name j) = some (bs.get j).data) ∧ ∀ i, folder i ≠ none → ∃ j, name j = i

/-! ### Invariants -/

section Run

variable {T : ℕ} {opens : ℕ → ℕ → Bool} {pool : ℤ → Buffer}
  {s s' : Crew T PqWrite Buffer Folder} {t k : Fin T}

/-- The runs of the write threads. -/
abbrev PqRun (opens : ℕ → ℕ → Bool) (pool : ℤ → Buffer) (s : Crew T PqWrite Buffer Folder) : Prop :=
  Crew.Run PqWrite.held (fun t => pqWrite opens t) (pqWriters T pool) s

/-- The counter of a thread that has taken the buffers `bs`; the last one is still to be written
while the file is opened. -/
def PqWrite.Counts (p : ℤ → Buffer) (bs : List Buffer) : PqWrite → Prop
  | .openFile i b => ∃ front, bs = front ++ [p b] ∧ front.length = i
  | .write i b => ∃ front, bs = front ++ [p b] ∧ front.length = i
  | .popIn i => bs.length = i
  | .free i _ => bs.length = i
  | .close i => bs.length = i
  | .done i => bs.length = i
  | .thrown => True

/-- What the folder holds while one thread writes all files. -/
def PqWrite.Wrote (folder : Folder) (bs : List Buffer) : PqWrite → Prop
  | .openFile i _ => ∀ j, folder j = ((bs.take i).map Buffer.data)[j]?
  | .write i _ => ∀ j, folder j = if j = i then some [] else ((bs.take i).map Buffer.data)[j]?
  | .thrown => True
  | _ => ∀ j, folder j = (bs.map Buffer.data)[j]?

/-- The invariant of the write threads. -/
structure PqInv (s : Crew T PqWrite Buffer Folder) : Prop where
  counts : ∀ t, (s.thread t).Counts s.mem.pool (s.taken t)
  named : ∀ i, s.mem.world i ≠ none → ∃ t, i < (s.taken t).length
  wrote : ∀ k, (∀ x ∈ s.popped, x.1 = k) →
    (s.thread k).Wrote s.mem.world (s.popped.map Prod.snd)

theorem PqWrite.Counts.congr {p p' : ℤ → Buffer} {bs : List Buffer} {l : PqWrite}
    (h_own : ∀ b ∈ l.held, p' b = p b) (h : l.Counts p bs) : l.Counts p' bs := by
  cases l with
  | openFile i b =>
    rw [Counts, h_own b (Multiset.mem_singleton_self b)]
    exact h
  | write i b =>
    rw [Counts, h_own b (Multiset.mem_singleton_self b)]
    exact h
  | _ => exact h

/-- Buffers elsewhere do not matter. -/
theorem PqInv.elsewhere (h : PqInv s) {v : ℤ} (hv : s.Elsewhere PqWrite.held v) (c : Buffer)
    (queue : List ℤ) : PqInv { s with queue := queue, mem := s.mem.write v c } where
  counts t := (h.counts t).congr fun b hb =>
    s.mem.write_pool_of_ne (fun h_eq : b = v => hv.2 t (h_eq ▸ hb)) c
  named := h.named
  wrote := h.wrote

/-- One thread goes on, and the counters of the others stand. -/
theorem counts_move (h : ∀ u, (s.thread u).Counts s.mem.pool (s.taken u)) {l : PqWrite}
    (h_counts : l.Counts s.mem.pool (s.taken t)) (u : Fin T) :
    (update s.thread t l u).Counts s.mem.pool (s.taken u) := by
  by_cases hu : u = t
  · subst hu
    rw [update_self]
    exact h_counts
  · rw [update_of_ne hu]
    exact h u

/-- One thread goes on. -/
theorem PqInv.move (h : PqInv s) {l : PqWrite} (h_counts : l.Counts s.mem.pool (s.taken t))
    (h_wrote : (∀ x ∈ s.popped, x.1 = t) → l.Wrote s.mem.world (s.popped.map Prod.snd)) :
    PqInv { s with thread := update s.thread t l } where
  counts := counts_move h.counts h_counts
  named := h.named
  wrote k hk := by
    by_cases hu : k = t
    · subst hu
      change (update s.thread k l k).Wrote _ _
      rw [update_self]
      exact h_wrote hk
    · change (update s.thread t l k).Wrote _ _
      rw [update_of_ne hu]
      exact h.wrote k hk

/-- The thread that writes a file goes on. -/
theorem PqInv.moveFile (h : PqInv s) {l : PqWrite} {i : ℕ} {content : List UInt8}
    (hi : i < (s.taken t).length) (h_counts : l.Counts s.mem.pool (s.taken t))
    (h_wrote : (∀ x ∈ s.popped, x.1 = t) →
      l.Wrote (update s.mem.world i (some content)) (s.popped.map Prod.snd)) :
    PqInv { s with
      mem := { s.mem with world := update s.mem.world i (some content) }
      thread := update s.thread t l } where
  counts := counts_move h.counts h_counts
  named j hj := by
    change update s.mem.world i (some content) j ≠ none at hj
    by_cases h_eq : j = i
    · subst h_eq
      exact ⟨t, hi⟩
    · rw [update_of_ne h_eq] at hj
      exact h.named j hj
  wrote k hk := by
    -- if one thread has taken all, it is the one that writes
    have h_one : k = t := by
      by_contra h_ne
      obtain ⟨x, hx⟩ := List.exists_mem_of_length_pos (Nat.zero_lt_of_lt hi)
      obtain ⟨y, hy, -⟩ := List.mem_map.mp hx
      rw [List.mem_filter, decide_eq_true_iff] at hy
      exact h_ne ((hk y hy.1).symm.trans hy.2)
    subst h_one
    change (update s.thread k l k).Wrote _ _
    rw [update_self]
    exact h_wrote hk

/-- A thread takes a buffer. -/
theorem PqInv.take (h : PqInv s) {i : ℕ} (h_thread : s.thread t = .popIn i) (v : ℤ)
    (queue : List ℤ) : PqInv { s with
      queue := queue
      thread := update s.thread t (.openFile i v)
      popped := s.popped ++ [(t, s.mem.pool v)] } := by
  -- the thread is at its file `i`, so it has taken `i` buffers
  have h_count : (s.taken t).length = i := by
    have h_counts := h.counts t
    rwa [h_thread] at h_counts
  constructor
  case counts =>
    intro u
    by_cases hu : u = t
    · subst hu
      change (update s.thread u _ u).Counts _ _
      rw [update_self, Crew.taken_popped rfl]
      -- the new buffer is one more of this thread
      exact ⟨_, rfl, h_count⟩
    · change (update s.thread t _ u).Counts _ _
      rw [update_of_ne hu, Crew.taken_popped_of_ne rfl hu]
      exact h.counts u
  case named =>
    intro j hj
    obtain ⟨u, hu⟩ := h.named j hj
    refine ⟨u, ?_⟩
    by_cases h_eq : u = t
    · subst h_eq
      rw [Crew.taken_popped rfl, List.length_append]
      exact Nat.lt_add_right _ hu
    · rw [Crew.taken_popped_of_ne rfl h_eq]
      exact hu
  case wrote =>
    intro k hk
    obtain ⟨h_old, h_last⟩ := List.forall_mem_append.mp hk
    obtain rfl : t = k := h_last _ (List.mem_singleton_self _)
    have h_wrote := h.wrote t h_old
    rw [h_thread] at h_wrote
    rw [Crew.taken_eq_popped h_old] at h_count
    -- the files before the new one stay as they are
    change (update s.thread t _ t).Wrote _ _
    rw [update_self, List.map_append]
    intro j
    rw [← h_count, List.take_left]
    exact h_wrote j

/-- **Step lemma.** -/
theorem PqInv.step (h : PqInv s) {a : Turn T Buffer}
    (h_exec : s.exec PqWrite.held (fun t => pqWrite opens t) a = some s') : PqInv s' := by
  cases a with
  -- buffers that arrive or move elsewhere touch no file
  | feed v c =>
    rw [Crew.exec] at h_exec
    split at h_exec
    · next h_ok =>
      cases h_exec
      exact h.elsewhere h_ok.2 c _
    · cases h_exec
  | feedMarker =>
    cases h_exec
    exact ⟨h.counts, h.named, h.wrote⟩
  | outside v c =>
    rw [Crew.exec] at h_exec
    split at h_exec
    · next h_ok =>
      cases h_exec
      exact h.elsewhere h_ok c _
    · cases h_exec
  -- one case for every place of the thread `t`
  | thread t =>
    have h_counts := h.counts t
    have h_wrote := h.wrote t
    rw [Crew.exec] at h_exec
    cases h_thread : s.thread t with
    | popIn i =>
      rw [h_thread] at h_exec h_counts h_wrote
      simp only [pqWrite] at h_exec
      split at h_exec
      · cases h_exec
      · next v rest h_queue =>
        by_cases hv : v = marker
        · simp only [if_pos hv] at h_exec
          cases h_exec
          have h_moved := h.move (t := t) (l := .done i) h_counts h_wrote
          exact ⟨h_moved.counts, h_moved.named, h_moved.wrote⟩
        · simp only [if_neg hv] at h_exec
          cases h_exec
          exact h.take h_thread v rest
    | openFile i b =>
      rw [h_thread] at h_exec h_counts h_wrote
      simp only [pqWrite] at h_exec
      obtain ⟨front, h_front, h_length⟩ := h_counts
      -- the file number `i` of the suffix is opened again if another thread had it
      split at h_exec
      · next h_opens =>
        cases h_exec
        refine h.moveFile ?_ ⟨front, h_front, h_length⟩ fun hk j => ?_
        · rw [h_front, List.length_append, h_length]
          exact Nat.lt_succ_self i
        · rw [update_apply]
          split
          · rfl
          · exact h_wrote hk j
      · cases h_exec
        exact h.move trivial fun _ => trivial
    | write i b =>
      rw [h_thread] at h_exec h_counts h_wrote
      cases h_exec
      obtain ⟨front, h_front, h_length⟩ := h_counts
      refine h.moveFile ?_ ?_ fun hk j => ?_
      · rw [h_front, List.length_append, h_length]
        exact Nat.lt_succ_self i
      · change (s.taken t).length = i + 1
        rw [h_front, List.length_append, h_length]
        rfl
      · -- all buffers have been taken by this thread, and this is the last one
        have h_old := h_wrote hk
        rw [← Crew.taken_eq_popped hk, h_front] at h_old ⊢
        rw [update_apply]
        split
        · next h_eq =>
          rw [h_old i, if_pos rfl, h_eq, List.map_append,
            List.getElem?_append_right (by rw [List.length_map, h_length]), List.length_map,
            h_length, Nat.sub_self]
          exact congrArg some (overwrite_nil _)
        · next h_ne =>
          -- an earlier file, or none
          rw [h_old j, if_neg h_ne, ← h_length, List.take_left, List.map_append]
          rcases Nat.lt_or_ge j front.length with h_lt | h_ge
          · rw [List.getElem?_append_left (by rwa [List.length_map])]
          · rw [List.getElem?_eq_none (by rwa [List.length_map]), List.getElem?_eq_none]
            rw [List.length_append, List.length_map]
            change front.length + 1 ≤ j
            omega
    | free i b =>
      rw [h_thread] at h_exec h_counts h_wrote
      cases h_exec
      exact h.move h_counts h_wrote
    | close i =>
      rw [h_thread] at h_exec h_counts h_wrote
      cases h_exec
      exact h.move h_counts h_wrote
    | done i =>
      rw [h_thread] at h_exec
      cases h_exec
    | thrown =>
      rw [h_thread] at h_exec
      cases h_exec
      exact h.move trivial fun _ => trivial

/-- **Run lemma.** -/
theorem pqRun_inv (h : PqRun opens pool s) : PqInv s := by
  induction h with
  | start => exact ⟨fun t => rfl, fun i hi => absurd rfl hi, fun k _ j => rfl⟩
  | step _ a h_exec ih => exact ih.step h_exec

/-! ### The files -/

/-- If one thread has taken all buffers, it has written a file for each. -/
theorem PqInv.oneFileEach (h : PqInv s) (h_done : AllDone s)
    (h_one : ∀ x ∈ s.popped, ∀ y ∈ s.popped, x.1 = y.1) :
    OneFileEach s.mem.world (s.popped.map Prod.snd) := by
  cases h_popped : s.popped with
  | nil =>
    refine ⟨fun j => j, Fin.val_injective, nofun, fun i hi => ?_⟩
    obtain ⟨t, ht⟩ := h.named i hi
    rw [Crew.taken, h_popped] at ht
    exact absurd ht (Nat.not_lt_zero i)
  -- the buffers are the files of this thread, in the order in which it took them
  | cons x rest =>
    have hx : x ∈ s.popped := by
      rw [h_popped]
      exact List.mem_cons_self
    have h_wrote := h.wrote x.1 fun y hy => h_one y hy x hx
    obtain ⟨i, hi⟩ := h_done x.1
    rw [hi, h_popped] at h_wrote
    refine ⟨fun j => j, Fin.val_injective, fun j => ?_, fun i hi => ?_⟩
    · rw [h_wrote j, List.getElem?_map, List.getElem?_eq_getElem j.2]
      rfl
    · rw [h_wrote i, ne_eq, List.getElem?_eq_none_iff, not_le, List.length_map] at hi
      exact ⟨⟨i, hi⟩, rfl⟩

/-- If there is a file for each buffer, one thread has taken them all: the numbers of the files are
smaller than what one of the threads has taken. -/
theorem PqInv.one_of_oneFileEach (h : PqInv s)
    (h_files : OneFileEach s.mem.world (s.popped.map Prod.snd)) :
    ∀ x ∈ s.popped, ∀ y ∈ s.popped, x.1 = y.1 := by
  intro x hx y hy
  obtain ⟨name, h_inj, h_content, -⟩ := h_files
  obtain ⟨t, -, h_most⟩ := Finset.exists_max_image Finset.univ (fun t => (s.taken t).length)
    ⟨x.1, Finset.mem_univ _⟩
  have h_small : ∀ j, name j < (s.taken t).length := fun j => by
    obtain ⟨u, hu⟩ := h.named (name j) (by rw [h_content j]; exact Option.some_ne_none _)
    exact hu.trans_le (h_most u (Finset.mem_univ u))
  have h_count : s.popped.length ≤ (s.taken t).length := by
    have h_card := Fintype.card_le_of_injective (fun j => (⟨name j, h_small j⟩ : Fin _))
      fun j j' h_eq => h_inj (Fin.mk.inj h_eq)
    rwa [Fintype.card_fin, Fintype.card_fin, List.length_map] at h_card
  have h_all : ∀ z ∈ s.popped, z.1 = t := fun z hz => by
    by_contra h_ne
    exact absurd (Crew.length_taken_lt hz h_ne) (not_lt.mpr h_count)
  rw [h_all x hx, h_all y hy]

/-- **The folder has a file for each buffer exactly if one thread has taken all buffers.** -/
theorem files_kept_iff (h : PqRun opens pool s) (h_done : AllDone s) :
    OneFileEach s.mem.world (s.popped.map Prod.snd) ↔
      ∀ x ∈ s.popped, ∀ y ∈ s.popped, x.1 = y.1 :=
  ⟨(pqRun_inv h).one_of_oneFileEach, (pqRun_inv h).oneFileEach h_done⟩

end Run

/-- A buffer with one byte of payload. -/
def oneByte (x : UInt8) : Buffer := ⟨{ totalSize := 1 }, [x]⟩

/-- One thread writes two buffers. -/
theorem files_kept_single : ∃ s : Crew 1 PqWrite Buffer Folder,
    PqRun (fun _ _ => true) (fun _ => default) s ∧
      OneFileEach s.mem.world [oneByte 65, oneByte 66] := by
  obtain ⟨s, h_run, h_done, h_popped⟩ := Crew.exists_run PqWrite.held
    (fun t : Fin 1 => pqWrite (fun _ _ => true) t) (pqWriters 1 fun _ => default)
    ([.feed 0 (oneByte 65), .feed 1 (oneByte 66), .feedMarker] ++ List.replicate 11 (.thread 0))
    (fun s => (∀ t, s.thread t = .done 2) ∧ s.popped = [(0, oneByte 65), (0, oneByte 66)])
    (by decide +kernel)
  have h_files := (files_kept_iff h_run fun t => ⟨2, h_done t⟩).mpr
    fun x _ y _ => Subsingleton.elim x.1 y.1
  rw [h_popped] at h_files
  exact ⟨s, h_run, h_files⟩

/-- Two threads that write a buffer each write to the same file. -/
theorem files_overwritten :
    ¬ ∀ (T : ℕ) (opens : ℕ → ℕ → Bool) (pool : ℤ → Buffer) (s : Crew T PqWrite Buffer Folder),
      1 ≤ T → PqRun opens pool s → AllDone s →
        OneFileEach s.mem.world (s.popped.map Prod.snd) := by
  intro h
  obtain ⟨s, h_run, h_done, h_popped⟩ := Crew.exists_run PqWrite.held
    (fun t : Fin 2 => pqWrite (fun _ _ => true) t) (pqWriters 2 fun _ => default)
    ([.feed 0 (oneByte 65), .feed 1 (oneByte 66), .feedMarker, .feedMarker] ++
      (List.replicate 6 [.thread 0, .thread 1]).flatten)
    (fun s => (∀ t, s.thread t = .done 1) ∧ s.popped = [(0, oneByte 65), (1, oneByte 66)])
    (by decide +kernel)
  have h_one := (pqRun_inv h_run).one_of_oneFileEach (h 2 _ _ s (by decide) h_run fun t => ⟨1, h_done t⟩)
  rw [h_popped] at h_one
  exact absurd (h_one (0, oneByte 65) (by simp) (1, oneByte 66) (by simp)) (by decide)

end Xdbc.Client
