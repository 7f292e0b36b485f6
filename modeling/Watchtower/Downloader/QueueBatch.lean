import Watchtower.Downloader.QueueInvariants

namespace Watchtower.Downloader.Queue
open Lib

/-- The node has the block of every height it is asked for. -/
def Found (h : Nat) : Answer → Prop
  | .ok (some block) => block.number = h
  | _ => False

instance : (h : Nat) → (out : Answer) → Decidable (Found h out)
  | h, .ok (some block) => inferInstanceAs (Decidable (block.number = h))
  | _, .ok none => inferInstanceAs (Decidable False)
  | _, .error _ => inferInstanceAs (Decidable False)

theorem found_faithful : Faithful Found := fun _ _ h => h

def joins : Event → Nat
  | .join _ => 1
  | _ => 0

/-- The queue beside the number of answers it has joined. -/
def stepCounted (x : State × Nat) (e : Event) : Option (State × Nat) :=
  (step x.1 e).map (fun t => (t, x.2 + joins e))

/-- The set and the buffer share out the heights between the two cursors. -/
structure Partitioned (s : State) : Prop where
  once : s.heights.Nodup
  apart : ∀ h ∈ s.heights, h ∉ s.completed.keys
  exactly : ∀ h, h ∈ s.heights ∨ h ∈ s.completed.keys ↔
    s.nextToEmit ≤ h ∧ h < s.nextDaHeight

variable {s t : State} {total : Nat}

theorem heights_eq_nil : s.heights = [] ↔ s.pending = [] := List.map_eq_nil_iff

/-- What a queue that has not returned keeps while every answer is a block. -/
structure Flowing (s : State) (total : Nat) : Prop where
  batch : s.mode = .batch
  covered : Covered s
  settled : s.point ≠ .emit → s.nextToEmit ∉ s.completed.keys
  full : s.point = .join → s.mode.concurrency ≤ s.pending.length + s.completed.size
  count : s.sent.length + s.completed.size = total

theorem startFrom_flowing (daHeight : Nat) : Flowing (startFrom daHeight) 0 where
  batch := rfl
  covered := startFrom_covered daHeight
  settled _ := List.not_mem_nil
  full := nofun
  count := rfl

theorem Flowing.partitioned (h : Flowing s total) (hs : Sound Found s) : Partitioned s where
  once := hs.distinct
  apart := hs.apart
  exactly k := ⟨hs.ahead h.batch k, fun hk => h.covered k hk.1 hk.2⟩

/-- Every answer joined is a block. -/
theorem joinsBlock_of_found (hs : Sound Found s) {e : Event} (hst : Stepped s e t) :
    joinsBlock s e = true := by
  cases hst with
  | join front back a out here split =>
    have hg := hs.given split
    match out, hg with
    | .ok (some block), _ => simp [joinsBlock, split]
  | spawn | full | idle | answer | send | done | dropped => rfl

/-- The block of a joined answer goes to a free place of the buffer. -/
theorem Flowing.joined (h : Flowing s total) (hs : Sound Found s) {front back : List Task}
    {a : Nat} {out : Answer} (split : s.pending = front ++ ⟨a, some out⟩ :: back) :
    (({ s with pending := front ++ back } : State).joined out).mode = .batch ∧
    (({ s with pending := front ++ back } : State).joined out).point = .emit ∧
    (({ s with pending := front ++ back } : State).joined out).sent.length +
      (({ s with pending := front ++ back } : State).joined out).completed.size = total + 1 := by
  obtain ⟨-, hg, -, hk, -⟩ := hs.leave split
  match out, hg with
  | .ok (some block), hg =>
    have hn : block.number = a := hg
    have hsize := SortedMap.size_insert_of_not_mem block (hn ▸ hk)
    refine ⟨h.batch, rfl, ?_⟩
    have := h.count
    simp only [State.joined, hsize]
    omega

theorem Flowing.step (h : Flowing s total) (hs : Sound Found s) {e : Event}
    (hst : Stepped s e t) (hgo : t.Running) : Flowing t (total + joins e) := by
  have hcovered := h.covered.step found_faithful hs hst (joinsBlock_of_found hs hst) hgo
  cases hst with
  | spawn here room =>
    exact ⟨h.batch, hcovered, fun _ => h.settled (by simp [here]),
      fun hj => by simp [State.spawn, here] at hj, h.count⟩
  | full here room =>
    exact ⟨h.batch, hcovered, fun _ => h.settled (by simp [here]), fun _ => room, h.count⟩
  | idle here none =>
    exact ⟨h.batch, hcovered, fun hne => absurd rfl hne, fun hj => by simp at hj, h.count⟩
  | answer front back a out split =>
    refine ⟨h.batch, hcovered, h.settled, ?_, h.count⟩
    intro here
    have := h.full here
    simpa [split] using this
  | join front back a out here split =>
    obtain ⟨hm, hp, hcount⟩ := h.joined hs split
    exact ⟨hm, hcovered, fun hne => absurd hp hne, fun hj => by simp [hp] at hj, hcount⟩
  | send block here head =>
    refine ⟨h.batch, hcovered, fun hne => absurd here hne,
      fun hj => by simp [State.sendHead, here] at hj, ?_⟩
    have hsize := SortedMap.size_erase_first head
    have := h.count
    simp only [State.sendHead, List.length_append, List.length_singleton, joins]
    omega
  | done here head =>
    refine ⟨h.batch, hcovered, fun _ => ?_, fun hj => by simp at hj, h.count⟩
    rcases head with hn | ⟨k, hk, hlt⟩
    · exact hn
    · have := (hs.ahead h.batch k (Or.inr hk)).1
      omega
  | dropped block here head => exact absurd rfl (hgo _)

/-- The request for `next_to_emit` is in flight while anything waits for it. -/
theorem Flowing.waited_for (h : Flowing s total) (hs : Sound Found s) (hne : s.point ≠ .emit)
    {k : Nat} (hk : k ∈ s.heights ∨ k ∈ s.completed.keys) : s.nextToEmit ∈ s.heights := by
  obtain ⟨hlo, hhi⟩ := hs.ahead h.batch k hk
  exact (h.covered s.nextToEmit (Nat.le_refl _) (by omega)).resolve_right (h.settled hne)

/-- With the block of `next_to_emit` missing, its request holds one of the
eight places. -/
theorem Flowing.waits (h : Flowing s total) (hs : Sound Found s)
    (hbound : s.pending.length + s.completed.size ≤ 8) (hne : s.point ≠ .emit) :
    s.completed.size ≤ 7 := by
  by_contra hbig
  have hpending : s.pending = [] := List.eq_nil_of_length_eq_zero (by omega)
  have hkeys : s.completed.keys ≠ [] := by
    intro hnil
    have := SortedMap.size_eq_zero.mpr hnil
    omega
  obtain ⟨k, hk⟩ := List.exists_mem_of_ne_nil _ hkeys
  have hnext := h.waited_for hs hne (Or.inr hk)
  rw [heights_eq_nil.mpr hpending] at hnext
  cases hnext

/-- At `join_next` the request for `next_to_emit` is in flight. -/
theorem Flowing.next_in_flight (h : Flowing s total) (hs : Sound Found s)
    (hbound : s.pending.length + s.completed.size ≤ 8) (here : s.point = .join) :
    s.nextToEmit ∈ s.heights := by
  have hne : s.point ≠ .emit := by simp [here]
  have hfew := h.waits hs hbound hne
  have hfull := h.full here
  rw [h.batch, Mode.concurrency] at hfull
  have hpending : s.heights ≠ [] := by
    intro hnil
    rw [heights_eq_nil.mp hnil, List.length_nil] at hfull
    omega
  obtain ⟨k, hk⟩ := List.exists_mem_of_ne_nil _ hpending
  exact h.waited_for hs hne (Or.inl hk)

theorem run_flowing {daHeight : Nat}
    (run : Run stepCounted (fun x e => Admitted Found x.1 e) (startFrom daHeight, 0) (s, total)) :
    Sound Found s ∧ InOrder Found daHeight s ∧ (s.Running → Flowing s total) := by
  apply run.invariant (motive := fun x => Sound Found x.1 ∧ InOrder Found daHeight x.1 ∧
    (x.1.Running → Flowing x.1 x.2))
  · exact ⟨startFrom_sound daHeight, startFrom_inOrder daHeight,
      fun _ => startFrom_flowing daHeight⟩
  · intro x y e h ha hst
    obtain ⟨hs, ho, hflow⟩ := h
    obtain ⟨t, ht, rfl⟩ := Option.map_eq_some_iff.mp hst
    have hstepped := step_cases ht
    exact ⟨hs.step found_faithful ha hstepped, ho.step found_faithful hs hstepped,
      fun hgo => (hflow (hstepped.running hgo)).step hs hstepped hgo⟩

/-- Steps of `stream_inner` that wait for nobody. -/
abbrev Alone (s t : State) : Prop := Run step (fun _ e => e = .advance) s t

theorem alone_of_step (h : step s .advance = some t) : Alone s t := Run.start.next rfl h

/-- The refill loop asks for as many heights as there is room for, and ends. -/
theorem refill_ends (room : Nat) (here : s.point = .refill)
    (hroom : s.pending.length + s.completed.size + room = s.mode.concurrency) :
    ∃ t, Alone s t ∧ t.point = .join ∧
      t.heights = s.heights ++ List.range' s.nextDaHeight room ∧ t.nextToEmit = s.nextToEmit := by
  induction room generalizing s with
  | zero =>
    have hstep : step s .advance = some { s with point := .join } := by
      simp [step, here, State.refill, ← hroom]
    exact ⟨_, alone_of_step hstep, rfl, (List.append_nil _).symm, rfl⟩
  | succ room ih =>
    have hlt : s.pending.length + s.completed.size < s.mode.concurrency := by omega
    have hstep : step s .advance = some s.spawn := by
      simp only [step, here, State.refill, if_pos hlt]
    have hroom' : s.spawn.pending.length + s.spawn.completed.size + room =
        s.spawn.mode.concurrency := by
      simp only [State.spawn, List.length_append, List.length_singleton]
      omega
    obtain ⟨t, run, hpoint, hheights, hnext⟩ := ih (s := s.spawn) here hroom'
    refine ⟨t, (alone_of_step hstep).trans run, hpoint, ?_, hnext⟩
    rw [hheights, List.range'_succ]
    simp [State.heights, State.spawn]

/-- The emit loop sends what it can, and ends. -/
theorem emit_ends (here : s.point = .emit) : ∃ t, Alone s t ∧ t.point = .refill := by
  induction hsize : s.completed.size using Nat.strongRecOn generalizing s with
  | _ size ih =>
    cases hhead : s.head? with
    | none =>
      have hstep : step s .advance = some { s with point := .refill } := by
        simp only [step, here, hhead]
      exact ⟨_, alone_of_step hstep, rfl⟩
    | some block =>
      have hstep : step s .advance = some (s.sendHead block) := by
        simp only [step, here, hhead]
      have hless := SortedMap.size_erase_first (head?_eq_some.mp hhead)
      obtain ⟨t, run, hpoint⟩ := ih (s.sendHead block).completed.size
        (by simp only [State.sendHead]; omega) (s := s.sendHead block) here rfl
      exact ⟨t, (alone_of_step hstep).trans run, hpoint⟩

/-- Any answer takes the queue from `join_next` to the emit loop. -/
theorem join_goes_on (hs : Sound Found s) (here : s.point = .join) {i h : Nat} {out : Answer}
    (hi : s.pending[i]? = some ⟨h, some out⟩) :
    ∃ t, step s (.join i) = some t ∧ t.point = .emit := by
  obtain ⟨front, back, hsplit, -⟩ := split_at hi
  have hfound := hs.given hsplit
  refine ⟨({ s with pending := s.pending.eraseIdx i }).joined out, ?_, ?_⟩
  · simp only [step, here, hi]
  · cases out with
    | error err => exact hfound.elim
    | ok found =>
      cases found with
      | none => exact hfound.elim
      | some block => rfl

theorem Alone.counted (alone : Alone s t) :
    Run stepCounted (fun x e => Admitted Found x.1 e) (s, total) (t, total) := by
  induction alone with
  | start => exact .start
  | @next u v e _ ha hst ih =>
    subst ha
    have hcounted : stepCounted (u, total) .advance = some (v, total) := by
      simp [stepCounted, hst, joins]
    exact ih.next (e := .advance) trivial hcounted

/-- While every answer is a block, whatever the order of the answers: at the end
of each pass the heights between the cursors are shared out between the set and
the buffer, at most seven blocks wait behind the one of `next_to_emit`, and all
others joined have been sent. The refill then asks for a block for every free
place and comes to `join_next`, with the request for `next_to_emit` in flight, so
the loop never goes round without an answer. Any answer takes it on to the emit
loop, and that loop to the end of the pass. -/
theorem batch_flows (daHeight : Nat)
    (run : Run stepCounted (fun x e => Admitted Found x.1 e) (startFrom daHeight, 0) (s, total)) :
    (s.point = .refill → Partitioned s ∧ s.nextToEmit ∉ s.completed.keys ∧
      s.completed.size ≤ 7 ∧ s.sent.length + s.completed.size = total ∧
      total - 7 ≤ s.sent.length ∧
      ∃ t, Alone s t ∧ t.point = .join ∧ t.nextToEmit = s.nextToEmit ∧
        t.heights = s.heights ++
          List.range' s.nextDaHeight (8 - (s.pending.length + s.completed.size)) ∧
        s.nextToEmit ∈ t.heights) ∧
    (s.point = .join → s.nextToEmit ∈ s.heights ∧ step s .advance = none ∧
      ∀ i h out, s.pending[i]? = some ⟨h, some out⟩ →
        ∃ t, step s (.join i) = some t ∧ t.point = .emit) ∧
    (s.point = .emit → ∃ t, Alone s t ∧ t.point = .refill) := by
  obtain ⟨hs, ho, hflow⟩ := run_flowing run
  refine ⟨?_, ?_, emit_ends⟩
  · intro here
    have h := hflow (by simp [State.Running, here])
    have hne : s.point ≠ .emit := by simp [here]
    have hfew := h.waits hs ho.bounded hne
    have hcount := h.count
    have hbound := ho.bounded
    have hroom : s.pending.length + s.completed.size +
        (8 - (s.pending.length + s.completed.size)) = s.mode.concurrency := by
      rw [h.batch, Mode.concurrency]
      omega
    obtain ⟨t, alone, hpoint, hheights, hnext⟩ := refill_ends _ here hroom
    obtain ⟨hst, hot, hflowt⟩ := run_flowing (run.trans alone.counted)
    have ht := hflowt (by simp [State.Running, hpoint])
    exact ⟨h.partitioned hs, h.settled hne, hfew, hcount, by omega,
      t, alone, hpoint, hnext, hheights, hnext ▸ ht.next_in_flight hst hot.bounded hpoint⟩
  · intro here
    have h := hflow (by simp [State.Running, here])
    have hnext := h.next_in_flight hs ho.bounded here
    have hpending : s.pending ≠ [] := by
      intro hnil
      rw [heights_eq_nil.mpr hnil] at hnext
      cases hnext
    exact ⟨hnext, by simp only [step, here, if_neg hpending], fun _ _ _ => join_goes_on hs here⟩

/-- The block of height 8 is joined before the one of height 7. -/
theorem batch_flows_second_first :
    ∃ s t : State,
      Run stepCounted (fun x e => Admitted Found x.1 e) (startFrom 7, 0) (s, 2) ∧
      s.point = .refill ∧ s.nextToEmit = 9 ∧ Partitioned s ∧ s.sent.length + s.completed.size = 2 ∧
      Alone s t ∧ t.point = .join ∧ t.heights = [9, 10, 11, 12, 13, 14, 15, 16] := by
  obtain ⟨⟨s, total⟩, run, here, hnext, hheights, hda, hempty, rfl⟩ :
      ∃ x, Run stepCounted (fun x e => Admitted Found x.1 e) (startFrom 7, 0) x ∧
        x.1.point = .refill ∧ x.1.nextToEmit = 9 ∧ x.1.heights = [9, 10, 11, 12, 13, 14] ∧
        x.1.nextDaHeight = 15 ∧ x.1.completed.size = 0 ∧ x.2 = 2 :=
    Run.exists_of_drive (secondFirst ++ advances 1) (by decide)
  obtain ⟨hparts, -, -, hcount, -, t, alone, hpoint, -, hafter, -⟩ := (batch_flows 7 run).1 here
  refine ⟨s, t, run, here, hnext, hparts, hcount, alone, hpoint, ?_⟩
  have hlength : s.pending.length = 6 := by
    simpa [State.heights] using congrArg List.length hheights
  rw [hafter, hheights, hda, hlength, hempty]
  rfl

end Watchtower.Downloader.Queue
