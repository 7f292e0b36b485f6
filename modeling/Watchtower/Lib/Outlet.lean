import Mathlib.Data.List.Basic

namespace Watchtower.Lib

universe u v

/-- What has become of the task that runs a producer and then forwards its error. -/
inductive Forwarder (ε : Type u) where
  | running
  | failed (err : ε)
  | ended
  | unreachable
  deriving DecidableEq

/-- A bounded channel from a producer to one reader. `put` is all that was ever
sent on it; the reader has taken the first `taken` items. -/
structure Outlet (capacity : Nat) (ε : Type u) (α : Type v) where
  put : List (Except ε α)
  taken : Nat
  task : Forwarder ε
  taken_le : taken ≤ put.length
  within : put.length ≤ taken + capacity
  deriving DecidableEq

namespace Outlet

variable {capacity : Nat} {ε : Type u} {α : Type v}

def empty : Outlet capacity ε α := ⟨[], 0, .running, Nat.le_refl _, Nat.zero_le _⟩

def received (s : Outlet capacity ε α) : List (Except ε α) := s.put.take s.taken

/-- A send completes at once, or not before the reader has made room. -/
def send (s : Outlet capacity ε α) (item : Except ε α) : Option (Outlet capacity ε α) :=
  if h : s.put.length < s.taken + capacity then
    some { s with
      put := s.put ++ [item]
      taken_le := by simpa using Nat.le_succ_of_le s.taken_le
      within := by simpa [Nat.succ_le_iff] using h }
  else none

/-- The reader gets the next item, if there is one. -/
def next? (s : Outlet capacity ε α) : Option (Except ε α × Outlet capacity ε α) :=
  match h : s.put[s.taken]? with
  | some item =>
    have hlt : s.taken < s.put.length := (List.getElem?_eq_some_iff.mp h).1
    have hin : s.put.length ≤ s.taken + 1 + capacity :=
      Nat.le_trans s.within (Nat.add_le_add_right (Nat.le_succ _) _)
    some (item, { s with taken := s.taken + 1, taken_le := hlt, within := hin })
  | none => none

/-- The task is done and everything is taken: the reader sees the end. -/
def Over (s : Outlet capacity ε α) : Prop :=
  s.taken = s.put.length ∧ (s.task = .ended ∨ s.task = .unreachable)

instance [DecidableEq ε] (s : Outlet capacity ε α) : Decidable s.Over :=
  inferInstanceAs (Decidable (_ ∧ _))

/-- The `match` on what the producer returned. -/
def finish (s : Outlet capacity ε α) : Except ε Unit → Outlet capacity ε α
  | .ok () => { s with task := .unreachable }
  | .error err => { s with task := .failed err }

/-- The task sends the error, for whoever is left to read it, and is done. -/
def forward (s : Outlet capacity ε α) (gone : Bool) : Option (Outlet capacity ε α) :=
  match s.task with
  | .failed err =>
    if gone then some { s with task := .ended }
    else (s.send (.error err)).map (fun s => { s with task := .ended })
  | _ => none

variable {s t : Outlet capacity ε α} {item : Except ε α}

theorem send_spec (h : s.send item = some t) :
    t.put = s.put ++ [item] ∧ t.taken = s.taken ∧ t.task = s.task := by
  unfold send at h
  split at h
  · cases h
    exact ⟨rfl, rfl, rfl⟩
  · contradiction

theorem next?_spec (h : s.next? = some (item, t)) :
    t.received = s.received ++ [item] ∧ t.put = s.put ∧ t.task = s.task := by
  unfold next? at h
  split at h
  · rename_i found
    cases h
    refine ⟨?_, rfl, rfl⟩
    simp only [received, List.take_add_one, found, Option.toList_some]
  · contradiction

/-- The item taken is the first of those not taken yet. -/
theorem next?_head (h : s.next? = some (item, t)) :
    s.put.drop s.taken = item :: s.put.drop t.taken := by
  unfold next? at h
  split at h
  · rename_i found
    cases h
    obtain ⟨hlt, hget⟩ := List.getElem?_eq_some_iff.mp found
    rw [List.drop_eq_getElem_cons hlt, hget]
  · contradiction

theorem next?_eq_none (h : s.next? = none) : s.taken = s.put.length := by
  unfold next? at h
  split at h
  · contradiction
  · rename_i found
    exact Nat.le_antisymm s.taken_le (List.getElem?_eq_none_iff.mp found)

theorem received_of_taken (h : s.taken = s.put.length) : s.received = s.put := by
  rw [received, h, List.take_length]

/-- Sending takes nothing out. -/
theorem received_send (h : s.send item = some t) : t.received = s.received := by
  obtain ⟨hput, htaken, -⟩ := send_spec h
  rw [received, received, hput, htaken, List.take_append_of_le_length s.taken_le]

theorem received_forward {gone : Bool} (h : s.forward gone = some t) :
    t.received = s.received := by
  unfold forward at h
  split at h
  · split at h
    · cases h
      rfl
    · obtain ⟨u, hsend, rfl⟩ := Option.map_eq_some_iff.mp h
      exact (received_send hsend : u.received = s.received)
  · contradiction

/-- What was put in when the producer has sent `sent` and, if it has returned,
`out` came of it. -/
def Relays (sent : List α) (out : Option (Except ε Unit)) (gone : Bool)
    (s : Outlet capacity ε α) : Prop :=
  match s.task with
  | .running => s.put = sent.map .ok
  | .failed err => out = some (.error err) ∧ s.put = sent.map .ok
  | .ended => ∃ err, out = some (.error err) ∧
      (s.put = sent.map .ok ++ [.error err] ∨ gone = true ∧ s.put = sent.map .ok)
  | .unreachable => False

variable {sent : List α} {out : Option (Except ε Unit)} {gone : Bool}

theorem empty_relays : Relays [] out gone (empty : Outlet capacity ε α) := rfl

/-- Before the producer returns its task is still running. -/
theorem Relays.running (h : Relays sent none gone s) :
    s.task = .running ∧ s.put = sent.map .ok := by
  unfold Relays at h
  split at h
  · rename_i htask
    exact ⟨htask, h⟩
  · cases h.1
  · obtain ⟨err, hout, -⟩ := h
    cases hout
  · exact h.elim

theorem Relays.of_running (htask : s.task = .running) (hput : s.put = sent.map .ok) :
    Relays sent out gone s := by
  unfold Relays
  rwa [htask]

theorem Relays.returns (h : Relays sent none gone s) : Relays sent out gone s :=
  .of_running h.running.1 h.running.2

theorem Relays.send {a : α} (h : Relays sent none gone s) (hsend : s.send (.ok a) = some t) :
    Relays (sent ++ [a]) out gone t := by
  obtain ⟨hput, -, htask⟩ := send_spec hsend
  refine .of_running (htask.trans h.running.1) ?_
  rw [hput, h.running.2, List.map_append, List.map_singleton]

theorem Relays.next (h : Relays sent out gone s) (hnext : s.next? = some (item, t)) :
    Relays sent out gone t := by
  obtain ⟨-, hput, htask⟩ := next?_spec hnext
  unfold Relays at h ⊢
  rwa [htask, hput]

theorem Relays.hangUp (h : Relays sent out gone s) : Relays sent out true s := by
  unfold Relays at h ⊢
  split at h
  · exact h
  · exact h
  · obtain ⟨err, hout, hput | ⟨-, hput⟩⟩ := h
    · exact ⟨err, hout, Or.inl hput⟩
    · exact ⟨err, hout, Or.inr ⟨rfl, hput⟩⟩
  · exact h

theorem Relays.finish {err : ε} (h : Relays sent out gone s) (htask : s.task = .running)
    (hout : out = some (.error err)) : Relays sent out gone (s.finish (.error err)) := by
  unfold Relays at h
  rw [htask] at h
  exact ⟨hout, h⟩

theorem Relays.forward (h : Relays sent out gone s) (hforward : s.forward gone = some t) :
    Relays sent out gone t := by
  unfold Outlet.forward at hforward
  split at hforward
  · rename_i err htask
    unfold Relays at h
    rw [htask] at h
    obtain ⟨hout, hput⟩ := h
    split at hforward
    · rename_i hgone
      cases hforward
      exact ⟨err, hout, Or.inr ⟨hgone, hput⟩⟩
    · obtain ⟨u, hsend, rfl⟩ := Option.map_eq_some_iff.mp hforward
      exact ⟨err, hout, Or.inl (hput ▸ (send_spec hsend).1)⟩
  · contradiction

theorem Relays.reachable (h : Relays sent out gone s) : s.task ≠ .unreachable := by
  intro htask
  unfold Relays at h
  rwa [htask] at h

/-- At most one error was put in, behind everything else. -/
theorem Relays.shape (h : Relays sent out gone s) : s.put = sent.map .ok ∨
    ∃ err, s.task = .ended ∧ out = some (.error err) ∧ s.put = sent.map .ok ++ [.error err] := by
  unfold Relays at h
  split at h
  · exact Or.inl h
  · exact Or.inl h.2
  · rename_i htask
    obtain ⟨err, hout, hput | ⟨-, hput⟩⟩ := h
    · exact Or.inr ⟨err, htask, hout, hput⟩
    · exact Or.inl hput
  · exact h.elim

/-- The items behind which no error lies are those the producer sent. -/
theorem Relays.sent_eq (h : Relays sent out gone s) : s.put.filterMap Except.toOption = sent := by
  rcases h.shape with hput | ⟨err, -, -, hput⟩ <;> rw [hput] <;>
    simp [List.filterMap_map, Function.comp_def, Except.toOption]

/-- Once the reader has the error it has everything, and sees the end. -/
theorem Relays.over_of_error {err : ε} (h : Relays sent out gone s)
    (herr : .error err ∈ s.received) :
    s.Over ∧ out = some (.error err) ∧ s.received = sent.map .ok ++ [.error err] := by
  rcases h.shape with hput | ⟨last, htask, hout, hput⟩
  · have := List.mem_of_mem_take herr
    simp [hput] at this
  · have htaken : s.taken = s.put.length := by
      by_contra hne
      have hle := s.taken_le
      have hlen : s.put.length = sent.length + 1 := by simp [hput]
      have hle' : s.taken ≤ (sent.map (Except.ok (ε := ε))).length := by
        rw [List.length_map]
        omega
      have hmem := herr
      rw [received, hput, List.take_append_of_le_length hle'] at hmem
      have := List.mem_of_mem_take hmem
      simp at this
    have hall := received_of_taken htaken
    rw [hall, hput] at herr
    have hlast : err = last := by simpa using herr
    exact ⟨⟨htaken, Or.inl htask⟩, hlast ▸ hout, by rw [hall, hput, hlast]⟩

/-- A reader that stays sees the end only behind an error. -/
theorem Relays.error_of_over (h : Relays sent out false s) (hover : s.Over) :
    ∃ err, out = some (.error err) ∧ s.received = sent.map .ok ++ [.error err] := by
  obtain ⟨htaken, htask⟩ := hover
  have htask : s.task = .ended := htask.resolve_right h.reachable
  unfold Relays at h
  rw [htask] at h
  obtain ⟨err, hout, hput | ⟨hgone, -⟩⟩ := h
  · exact ⟨err, hout, by rw [received_of_taken htaken, hput]⟩
  · cases hgone

/-- What is left to do before the reader sees the end. -/
def left (s : Outlet capacity ε α) : Nat :=
  (match s.task with
    | .running => 4
    | .failed _ => 2
    | _ => 0) + (s.put.length - s.taken)

theorem left_returns (outcome : Except ε Unit) (htask : s.task = .running) :
    (s.finish outcome).left < s.left := by
  cases outcome <;> simp only [left, finish, htask] <;> omega

theorem left_next (h : s.next? = some (item, t)) : t.left < s.left := by
  unfold next? at h
  split at h
  · rename_i found
    cases h
    have hlt := (List.getElem?_eq_some_iff.mp found).1
    simp only [left]
    omega
  · contradiction

theorem left_forward (h : s.forward gone = some t) : t.left < s.left := by
  unfold forward at h
  split at h
  · rename_i err htask
    split at h
    · cases h
      simp only [left, htask]
      omega
    · obtain ⟨u, hsend, rfl⟩ := Option.map_eq_some_iff.mp h
      obtain ⟨hput, htaken, -⟩ := send_spec hsend
      have hlen : u.put.length = s.put.length + 1 := by simp [hput]
      simp only [left, htask, hlen, htaken]
      omega
  · contradiction

/-- A reader that has taken everything lets the task send. -/
theorem forward_isSome {err : ε} (hcap : 0 < capacity) (htaken : s.taken = s.put.length)
    (htask : s.task = .failed err) : (s.forward gone).isSome = true := by
  have hroom : s.put.length < s.taken + capacity := by omega
  simp only [forward, htask]
  split
  · rfl
  · rw [send, dif_pos hroom]
    rfl

end Outlet
end Watchtower.Lib
