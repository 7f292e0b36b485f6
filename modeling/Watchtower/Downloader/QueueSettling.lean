import Mathlib.Data.Prod.Lex
import Watchtower.Downloader.DownloadQueue

namespace Watchtower.Downloader.Queue
open Lib

variable {s t : State}

/-- No request is out, the buffer leaves no room for one, and its first block is
not the one to send. -/
structure Spinning (s : State) : Prop where
  running : s.Running
  idle : s.pending = []
  full : s.mode.concurrency ≤ s.completed.size
  headless : s.head? = none

theorem no_head {block : Block} (h : s.head? = none)
    (head : s.completed.first? = some (s.nextToEmit, block)) : False := by
  rw [head?_eq_some.mpr head] at h
  contradiction

theorem head?_eq_none_iff : s.head? = none ↔
    s.nextToEmit ∉ s.completed.keys ∨ ∃ k ∈ s.completed.keys, k < s.nextToEmit := by
  refine ⟨head?_eq_none, fun h => ?_⟩
  by_contra hne
  obtain ⟨block, hblock⟩ := Option.ne_none_iff_exists'.mp hne
  obtain ⟨hget, hleast⟩ := SortedMap.first?_eq_some.mp (head?_eq_some.mp hblock)
  rcases h with hmissing | ⟨k, hk, hlt⟩
  · exact hmissing (SortedMap.mem_keys.mpr ⟨block, hget⟩)
  · exact absurd (hleast k hk) (Nat.not_le_of_lt hlt)

/-- A queue that spins goes round its loop and does nothing else any more. -/
theorem Spinning.step (h : Spinning s) {e : Event} (hst : Stepped s e t) :
    Spinning t ∧ t.sent = s.sent := by
  have hidle := h.idle
  cases hst with
  | spawn here room =>
    have := h.full
    rw [hidle, List.length_nil] at room
    omega
  | full | idle | done => exact ⟨⟨nofun, h.idle, h.full, h.headless⟩, rfl⟩
  | answer front back a out split | join front back a out here split =>
    rw [hidle] at split
    exact absurd split (by simp)
  | send block here head | dropped block here head => exact (no_head h.headless head).elim

/-- And it does go round. -/
theorem Spinning.goes_round (h : Spinning s) : (Queue.step s .advance).isSome = true := by
  cases hpoint : s.point with
  | refill => simp [Queue.step, hpoint]
  | join => simp [Queue.step, hpoint, h.idle]
  | emit => simp [Queue.step, hpoint, h.headless]
  | returned why => exact absurd hpoint (h.running why)

/-- The steps that need no answer. -/
def Event.own : Event → Prop
  | .join _ | .advance | .hangUp => True
  | .answer _ _ => False

/-- The tasks that are done and wait to be joined. -/
def State.unjoined (s : State) : Nat := s.pending.countP (fun task => task.output.isSome)

/-- How far it is to `join_next` with a request out. -/
def State.rank (s : State) : Nat :=
  match s.point with
  | .refill =>
    if s.pending = [] ∧ s.mode.concurrency ≤ s.completed.size then 12
    else s.mode.concurrency - (s.pending.length + s.completed.size) + 1
  | .join => if s.pending = [] then 11 else 0
  | .emit => 10
  | .returned _ => 0

def State.load (s : State) : ℕ ×ₗ ℕ ×ₗ ℕ :=
  toLex (s.unjoined, toLex (s.completed.size, s.rank))

theorem load_lt_of_unjoined (h : t.unjoined < s.unjoined) : t.load < s.load :=
  Prod.Lex.toLex_lt_toLex.mpr (Or.inl h)

theorem load_lt_of_size (hu : t.unjoined = s.unjoined) (h : t.completed.size < s.completed.size) :
    t.load < s.load :=
  Prod.Lex.toLex_lt_toLex.mpr (Or.inr ⟨hu, Prod.Lex.toLex_lt_toLex.mpr (Or.inl h)⟩)

theorem load_lt_of_rank (hu : t.unjoined = s.unjoined) (hs : t.completed.size = s.completed.size)
    (h : t.rank < s.rank) : t.load < s.load :=
  Prod.Lex.toLex_lt_toLex.mpr (Or.inr ⟨hu, Prod.Lex.toLex_lt_toLex.mpr (Or.inr ⟨hs, h⟩)⟩)

theorem joined_unjoined (s : State) (out : Answer) : (s.joined out).unjoined = s.unjoined := by
  cases out with
  | error err => cases err <;> rfl
  | ok found =>
    cases found with
    | some block => rfl
    | none => cases hm : s.mode <;> simp [State.joined, hm, State.unjoined]

/-- Every step of its own brings a queue that does not spin closer to the next
answer it needs. -/
theorem step_lowers (spins : ¬ Spinning s) {e : Event} (he : e.own) (hst : Stepped s e t) :
    t.load < s.load := by
  cases hst with
  | answer => exact he.elim
  | spawn here room =>
    apply load_lt_of_rank
    · simp [State.spawn, State.unjoined]
    · rfl
    · have hno : ¬ (s.pending = [] ∧ s.mode.concurrency ≤ s.completed.size) := by
        intro hstuck
        rw [hstuck.1, List.length_nil] at room
        have := hstuck.2
        omega
      simp only [State.rank, State.spawn, here, if_neg hno, List.append_eq_nil_iff,
        List.cons_ne_nil, and_false, false_and, if_false, List.length_append, List.length_singleton]
      omega
  | full here room =>
    apply load_lt_of_rank
    · rfl
    · rfl
    · by_cases hp : s.pending = []
      · have hc : s.mode.concurrency ≤ s.completed.size := by simpa [hp] using room
        simp [State.rank, here, hp, hc]
      · simp [State.rank, here, hp]
  | idle here none =>
    apply load_lt_of_rank
    · rfl
    · rfl
    · simp [State.rank, here, none]
  | done here head =>
    have hno : ¬ (s.pending = [] ∧ s.mode.concurrency ≤ s.completed.size) := by
      intro hstuck
      refine spins ⟨fun why hw => ?_, hstuck.1, hstuck.2, head?_eq_none_iff.mpr head⟩
      rw [here] at hw
      contradiction
    have hle : s.mode.concurrency ≤ 8 := by cases s.mode <;> decide
    apply load_lt_of_rank
    · rfl
    · rfl
    · simp only [State.rank, here, if_neg hno]
      omega
  | join front back a out here split =>
    apply load_lt_of_unjoined
    rw [joined_unjoined]
    simp [State.unjoined, split]
  | send block here head =>
    have := SortedMap.size_erase_first head
    apply load_lt_of_size
    · rfl
    · simp only [State.sendHead]
      omega
  | dropped block here head =>
    have := SortedMap.size_erase_first head
    apply load_lt_of_size
    · rfl
    · dsimp only
      omega

/-- The queue waits for the first answer to one of its requests. -/
structure Waiting (s : State) : Prop where
  here : s.point = .join
  out : s.pending ≠ []
  unanswered : ∀ task ∈ s.pending, task.output = none

/-- A queue that has not returned and can do nothing waits for an answer. -/
theorem waiting_of_still (running : s.Running) (advance : step s .advance = none)
    (join : ∀ i, step s (.join i) = none) : Waiting s := by
  cases hpoint : s.point with
  | refill => simp [step, hpoint] at advance
  | emit => cases hhead : s.head? <;> simp [step, hpoint, hhead] at advance
  | returned why => exact absurd hpoint (running why)
  | join =>
    refine ⟨hpoint, fun hp => ?_, fun task hm => ?_⟩
    · simp [step, hpoint, hp] at advance
    · obtain ⟨i, hi⟩ := List.mem_iff_getElem?.mp hm
      obtain ⟨h, output⟩ := task
      cases output with
      | none => rfl
      | some out =>
        have hjoin := join i
        simp [step, hpoint, hi] at hjoin

end Watchtower.Downloader.Queue
