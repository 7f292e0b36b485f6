import Watchtower.Downloader.QueueInvariants

namespace Watchtower.Downloader.Queue
open Lib

/-- The node has the block or not yet. -/
def BlockOrNone (h : Nat) : Answer → Prop
  | .ok (some block) => block.number = h
  | .ok none => True
  | .error _ => False

instance : (h : Nat) → (out : Answer) → Decidable (BlockOrNone h out)
  | h, .ok (some block) => inferInstanceAs (Decidable (block.number = h))
  | _, .ok none => inferInstanceAs (Decidable True)
  | _, .error _ => inferInstanceAs (Decidable False)

theorem blockOrNone_faithful : Faithful BlockOrNone := fun _ _ h => h

/-- Nothing behind what was emitted is asked for, in flight or buffered, and
nothing ahead of it is held twice. -/
structure NothingBehind (s : State) : Prop where
  cursors : s.nextToEmit ≤ s.nextDaHeight
  pending : ∀ h ∈ s.heights, s.nextToEmit ≤ h
  completed : ∀ k ∈ s.completed.keys, s.nextToEmit ≤ k
  distinct : s.heights.Nodup
  apart : ∀ h ∈ s.heights, h ∉ s.completed.keys

/-- The event joins the block of `next_to_emit` although a rewind has made that
height the next one to be asked for again. -/
def joinsRewound (s : State) : Event → Bool
  | .join i =>
    match s.pending[i]? with
    | some ⟨h, some (.ok (some _))⟩ => h = s.nextToEmit ∧ s.nextDaHeight = s.nextToEmit
    | _ => false
  | _ => false

variable {s t : State}

/-- Either the request cursor is ahead of all that is held, or a rewind has
put it on a height the emit loop cannot send yet. -/
structure Rewindable (s : State) : Prop where
  cursors : s.nextToEmit ≤ s.nextDaHeight
  held : ∀ h, h ∈ s.heights ∨ h ∈ s.completed.keys → s.nextToEmit ≤ h
  ahead : (s.nextDaHeight = s.nextToEmit ∧ s.nextToEmit ∉ s.completed.keys) ∨
    ∀ h, h ∈ s.heights ∨ h ∈ s.completed.keys → h < s.nextDaHeight
  settled : s.Running → s.point ≠ .emit → s.nextToEmit ∉ s.completed.keys

theorem Rewindable.nothingBehind (h : Rewindable s) (hs : Sound BlockOrNone s) : NothingBehind s :=
  ⟨h.cursors, fun a ha => h.held a (Or.inl ha), fun k hk => h.held k (Or.inr hk),
    hs.distinct, hs.apart⟩

theorem startFrom_rewindable (daHeight : Nat) : Rewindable (startFrom daHeight) := by
  refine ⟨Nat.le_refl _, ?_, Or.inl ⟨rfl, ?_⟩, ?_⟩ <;> simp [startFrom, State.heights]

theorem Rewindable.spawn (h : Rewindable s) (here : s.point = .refill)
    (hs : Sound BlockOrNone s)
    (room : s.pending.length + s.completed.size < s.mode.concurrency) : Rewindable s.spawn := by
  have hheights := heights_spawn s
  have hbelow : ∀ a, a ∈ s.heights ∨ a ∈ s.completed.keys → a < s.nextDaHeight := by
    cases hm : s.mode with
    | batch => exact fun a ha => (hs.ahead hm a ha).2
    | poll =>
      obtain ⟨hp, hk⟩ := empty_of_room hm room
      simp [State.heights, hp, hk]
  refine ⟨Nat.le_succ_of_le h.cursors, ?_, Or.inr ?_, ?_⟩
  · intro a ha
    rw [hheights, List.mem_append, List.mem_singleton] at ha
    rcases ha with (ha | rfl) | ha
    · exact h.held a (Or.inl ha)
    · exact h.cursors
    · exact h.held a (Or.inr ha)
  · intro a ha
    change a < s.nextDaHeight + 1
    rw [hheights, List.mem_append, List.mem_singleton] at ha
    rcases ha with (ha | rfl) | ha
    · exact Nat.lt_succ_of_lt (hbelow a (Or.inl ha))
    · exact Nat.lt_succ_self _
    · exact Nat.lt_succ_of_lt (hbelow a (Or.inr ha))
  · intro _ _
    exact h.settled (by simp [State.Running, here]) (by simp [here])

theorem Rewindable.joined (h : Rewindable s) (hs : Sound BlockOrNone s) (here : s.point = .join)
    {front back : List Task} {a : Nat} {out : Answer}
    (split : s.pending = front ++ ⟨a, some out⟩ :: back)
    (hno : joinsRewound s (.join front.length) = false) :
    Rewindable (({ s with pending := front ++ back } : State).joined out) := by
  have hg := hs.given split
  have hmem : a ∈ s.heights := (mem_heights_split split).mpr (Or.inl rfl)
  have hrest : ∀ b ∈ ({ s with pending := front ++ back } : State).heights, b ∈ s.heights :=
    fun b hb => (mem_heights_split split).mpr (Or.inr hb)
  have hsettled : s.nextToEmit ∉ s.completed.keys :=
    h.settled (by simp [State.Running, here]) (by simp [here])
  cases out with
  | error err => exact False.elim hg
  | ok found =>
    cases found with
    | some block =>
      have hn : block.number = a := hg
      refine ⟨h.cursors, ?_, ?_, ?_⟩
      · intro b hb
        simp only [State.joined, SortedMap.mem_keys_insert, hn] at hb
        rcases hb with hb | rfl | hb
        · exact h.held b (Or.inl (hrest b hb))
        · exact h.held b (Or.inl hmem)
        · exact h.held b (Or.inr hb)
      · simp only [State.joined, SortedMap.mem_keys_insert, hn]
        rcases h.ahead with ⟨hd, hk⟩ | hall
        · left
          refine ⟨hd, ?_⟩
          rintro (he | hk')
          · simp [joinsRewound, split, he, hd] at hno
          · exact hk hk'
        · right
          rintro b (hb | rfl | hb)
          · exact hall b (Or.inl (hrest b hb))
          · exact hall b (Or.inl hmem)
          · exact hall b (Or.inr hb)
      · intro _ hne
        exact absurd rfl hne
    | none =>
      have hheld : ∀ b, b ∈ ({ s with pending := front ++ back } : State).heights ∨
          b ∈ s.completed.keys → s.nextToEmit ≤ b :=
        fun b hb => h.held b (hb.imp_left (hrest b))
      cases hm : s.mode with
      | batch =>
        simp only [State.joined]
        refine ⟨h.cursors, hheld, ?_, fun _ hne => absurd rfl hne⟩
        exact h.ahead.imp_right (fun hall b hb => hall b (hb.imp_left (hrest b)))
      | poll =>
        simp only [State.joined]
        exact ⟨Nat.le_refl _, hheld, Or.inl ⟨rfl, hsettled⟩, fun _ _ => hsettled⟩

theorem Rewindable.step (h : Rewindable s) (hs : Sound BlockOrNone s) {e : Event}
    (hst : Stepped s e t) (hno : joinsRewound s e = false) : Rewindable t := by
  cases hst with
  | spawn here room => exact h.spawn here hs room
  | full here room =>
    have hsettled := h.settled (by simp [State.Running, here]) (by simp [here])
    exact ⟨h.cursors, h.held, h.ahead, fun _ _ => hsettled⟩
  | idle here none => exact ⟨h.cursors, h.held, h.ahead, fun _ hne => absurd rfl hne⟩
  | answer front back a out split =>
    refine ⟨h.cursors, ?_, ?_, h.settled⟩
    · rw [heights_answer split]
      exact h.held
    · rw [heights_answer split]
      exact h.ahead
  | join front back a out here split => exact h.joined hs here split hno
  | send block here head =>
    have hk := head_mem_keys head
    have hall := h.ahead.resolve_left (fun hr => hr.2 hk)
    have hback : ∀ a, a ∈ s.heights ∨ a ∈ (s.completed.erase s.nextToEmit).keys →
        a ≠ s.nextToEmit ∧ (a ∈ s.heights ∨ a ∈ s.completed.keys) := by
      rintro a (ha | ha)
      · exact ⟨fun he => hs.apart a ha (he ▸ hk), Or.inl ha⟩
      · obtain ⟨hne, ha⟩ := SortedMap.mem_keys_erase.mp ha
        exact ⟨hne, Or.inr ha⟩
    refine ⟨hall _ (Or.inr hk), ?_, Or.inr ?_, fun _ hne => absurd here hne⟩
    · intro a ha
      obtain ⟨hne, ha⟩ := hback a ha
      exact Nat.lt_of_le_of_ne (h.held a ha) (Ne.symm hne)
    · intro a ha
      exact hall a (hback a ha).2
  | done here head =>
    refine ⟨h.cursors, h.held, h.ahead, fun _ _ => ?_⟩
    rcases head with hn | ⟨k, hk, hlt⟩
    · exact hn
    · exact absurd (h.held k (Or.inr hk)) (Nat.not_le_of_lt hlt)
  | dropped block here head =>
    have hsub : ∀ a, a ∈ s.heights ∨ a ∈ (s.completed.erase s.nextToEmit).keys →
        a ∈ s.heights ∨ a ∈ s.completed.keys :=
      fun a ha => ha.imp_right (fun ha => (SortedMap.mem_keys_erase.mp ha).2)
    refine ⟨h.cursors, fun a ha => h.held a (hsub a ha), ?_, fun hgo => absurd rfl (hgo _)⟩
    right
    exact fun a ha => (h.ahead.resolve_left (fun hr => hr.2 (head_mem_keys head))) a (hsub a ha)

/-- The request cursor is behind the emit cursor, or is about to be: the block
of `next_to_emit` stands at the head of the buffer. -/
def FallsBehind (s : State) : Prop :=
  s.nextDaHeight < s.nextToEmit ∨ (∃ why, s.point = .returned why) ∨
    (s.point = .emit ∧ s.nextDaHeight = s.nextToEmit ∧ s.nextToEmit ∈ s.completed.keys ∧
      ∀ k ∈ s.completed.keys, s.nextToEmit ≤ k)

theorem joinsRewound_fallsBehind (hs : Sound BlockOrNone s) (h : Rewindable s) {e : Event}
    (hst : Stepped s e t) (hj : joinsRewound s e = true) : FallsBehind t := by
  cases hst with
  | join front back a out here split =>
    have hg := hs.given split
    cases out with
    | error err => exact False.elim hg
    | ok found =>
      cases found with
      | none => simp [joinsRewound, split] at hj
      | some block =>
        have hn : block.number = a := hg
        obtain ⟨ha, hd⟩ : a = s.nextToEmit ∧ s.nextDaHeight = s.nextToEmit := by
          simpa [joinsRewound, split] using hj
        refine Or.inr (Or.inr ⟨rfl, hd, ?_, ?_⟩)
        · exact SortedMap.mem_keys_insert.mpr (Or.inl (ha.symm.trans hn.symm))
        · intro k hk
          rcases SortedMap.mem_keys_insert.mp hk with rfl | hk
          · exact Nat.le_of_eq (ha.symm.trans hn.symm)
          · exact h.held k (Or.inr hk)
  | spawn | full | idle | answer | send | done | dropped => simp [joinsRewound] at hj

theorem FallsBehind.step (h : FallsBehind s) (here : s.point = .emit) {e : Event}
    (hst : Stepped s e t) : FallsBehind t := by
  cases hst with
  | spawn he | full he | idle he | join _ _ _ _ he => rw [here] at he; cases he
  | answer front back a out split => exact h
  | dropped => exact Or.inr (Or.inl ⟨_, rfl⟩)
  | send block _ head =>
    left
    change s.nextDaHeight < s.nextToEmit + 1
    rcases h with h | ⟨why, h⟩ | ⟨-, h, -⟩
    · omega
    · rw [here] at h
      cases h
    · omega
  | done _ head =>
    left
    rcases h with h | ⟨why, h⟩ | ⟨-, -, hk, hle⟩
    · exact h
    · rw [here] at h
      cases h
    · rcases head with hn | ⟨k, hm, hlt⟩
      · exact absurd hk hn
      · exact absurd (hle k hm) (Nat.not_le_of_lt hlt)

/-- In the run nothing is ever held behind what was emitted, as long as no
block is joined that a rewind has already scheduled again. The first such
block, once sent, leaves the request cursor behind. -/
theorem nothing_behind_unless_rewound (daHeight : Nat) :
    (∀ s, Run step (fun u e => Admitted BlockOrNone u e ∧ joinsRewound u e = false)
        (startFrom daHeight) s → s.point = .refill → NothingBehind s) ∧
    (∀ u v w e, Run step (fun u e => Admitted BlockOrNone u e ∧ joinsRewound u e = false)
        (startFrom daHeight) u → joinsRewound u e = true → step u e = some v →
        Run step (fun x _ => x.point = .emit) v w → w.point = .refill → ¬ NothingBehind w) := by
  have hclean : ∀ s, Run step (fun u e => Admitted BlockOrNone u e ∧ joinsRewound u e = false)
      (startFrom daHeight) s → Sound BlockOrNone s ∧ Rewindable s := by
    intro s run
    apply run.invariant (motive := fun u => Sound BlockOrNone u ∧ Rewindable u)
      ⟨startFrom_sound daHeight, startFrom_rewindable daHeight⟩
    intro u v e h hadm hst
    obtain ⟨hs, hr⟩ := h
    obtain ⟨ha, hno⟩ := hadm
    exact ⟨hs.step blockOrNone_faithful ha (step_cases hst), hr.step hs (step_cases hst) hno⟩
  refine ⟨fun s run _ => (hclean s run).2.nothingBehind (hclean s run).1, ?_⟩
  intro u v w e hu hj hst run here hw
  obtain ⟨hs, hr⟩ := hclean u hu
  have hfall : FallsBehind w :=
    run.invariant (joinsRewound_fallsBehind hs hr (step_cases hst) hj)
      (fun _ _ _ h hp hstep => h.step hp (step_cases hstep))
  rcases hfall with h | ⟨why, h⟩ | ⟨h, -⟩
  · exact Nat.not_le_of_lt h hw.cursors
  · rw [here] at h
    cases h
  · rw [here] at h
    cases h

/-- The chain ends at height 5 at first. The `None`s behind it are joined in
order, the first of them leaving the batch and the others rewinding, and height 6
is there when it is asked for again. -/
def polledAgain : List Event :=
  List.flatten [advances 9,
    [.answer 0 (.ok (some (bareBlock 4))), .answer 1 (.ok (some (bareBlock 5)))],
    (List.range' 2 6).map (.answer · (.ok none)),
    [.join 0], advances 4, [.join 0], advances 4, [.join 0], advances 2,
    (List.replicate 5 (Event.join 0 :: advances 1)).flatten,
    [.answer 0 (.ok none), .answer 1 (.ok none), .join 0], advances 1, [.join 0], advances 2,
    [.answer 0 (.ok (some (bareBlock 6))), .join 0], advances 2]

theorem nothing_behind_unless_rewound_polled :
    ∃ s, Run step (fun u e => Admitted BlockOrNone u e ∧ joinsRewound u e = false)
        (startFrom 4) s ∧
      s.point = .refill ∧ s.mode = .poll ∧ s.sent = [bareBlock 4, bareBlock 5, bareBlock 6] ∧
      s.nextDaHeight = 7 ∧ NothingBehind s := by
  obtain ⟨s, run, here, hmode, hsent, hda⟩ :
      ∃ s, Run step (fun u e => Admitted BlockOrNone u e ∧ joinsRewound u e = false)
        (startFrom 4) s ∧ s.point = .refill ∧ s.mode = .poll ∧
        s.sent = [bareBlock 4, bareBlock 5, bareBlock 6] ∧ s.nextDaHeight = 7 :=
    Run.exists_of_drive polledAgain (by decide)
  exact ⟨s, run, here, hmode, hsent, hda, (nothing_behind_unless_rewound 4).1 s run here⟩

/-- Eight requests from height 0 on. Heights 7 and 6 are not there yet and are
joined first: the second `None` rewinds while heights 0 to 5 are in flight, and
the block of height 0 is joined after that. -/
def nonesFirst : List Event :=
  List.flatten [advances 9,
    [.answer 7 (.ok none), .answer 6 (.ok none), .answer 0 (.ok (some (bareBlock 0)))],
    [.join 7], advances 2, [.join 6], advances 1, [.join 0], advances 2]

/-- Block 0 was sent, and the queue is about to ask for height 0 again. -/
theorem rewind_behind_emitted :
    ¬ ∀ daHeight s, Run step (Admitted BlockOrNone) (startFrom daHeight) s →
      s.point = .refill → NothingBehind s := by
  intro hall
  obtain ⟨s, run, here, hn, hd⟩ :
      ∃ s, Run step (Admitted BlockOrNone) (startFrom 0) s ∧ s.point = .refill ∧
        s.nextToEmit = 1 ∧ s.nextDaHeight = 0 :=
    Run.exists_of_drive nonesFirst (by decide)
  have := (hall 0 s run here).cursors
  omega

end Watchtower.Downloader.Queue
