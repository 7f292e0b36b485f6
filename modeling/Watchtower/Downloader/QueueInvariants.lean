import Watchtower.Downloader.DownloadQueue

namespace Watchtower.Downloader.Queue
open Lib

/-- A block given for a height is the block of that height. -/
def Faithful (gave : Nat → Answer → Prop) : Prop :=
  ∀ h block, gave h (.ok (some block)) → block.number = h

/-- What every run keeps, whatever is answered: a height is never in flight
twice or both in flight and buffered, and until the switch to polling all of
them lie between the two cursors. -/
structure Sound (gave : Nat → Answer → Prop) (s : State) : Prop where
  answers : ∀ task ∈ s.pending, ∀ out, task.output = some out → gave task.height out
  keyed : ∀ k block, s.completed.get? k = some block → gave k (.ok (some block))
  distinct : s.heights.Nodup
  apart : ∀ h ∈ s.heights, h ∉ s.completed.keys
  cursors : s.mode = .batch → s.nextToEmit ≤ s.nextDaHeight
  ahead : s.mode = .batch → ∀ h, h ∈ s.heights ∨ h ∈ s.completed.keys →
    s.nextToEmit ≤ h ∧ h < s.nextDaHeight

variable {gave : Nat → Answer → Prop} {s t : State}

theorem startFrom_sound (daHeight : Nat) : Sound gave (startFrom daHeight) where
  answers := by simp [startFrom]
  keyed := by simp [startFrom]
  distinct := by simp [startFrom, State.heights]
  apart := by simp [startFrom, State.heights]
  cursors := by simp [startFrom]
  ahead := by simp [startFrom, State.heights]

/-- The place of `stream_inner` plays no part. -/
theorem Sound.move (h : Sound gave s) (point : Point) : Sound gave { s with point := point } :=
  ⟨h.answers, h.keyed, h.distinct, h.apart, h.cursors, h.ahead⟩

theorem heights_split {front back : List Task} {h : Nat} {out : Option Answer}
    (split : s.pending = front ++ ⟨h, out⟩ :: back) :
    s.heights = front.map Task.height ++ h :: back.map Task.height := by
  simp [State.heights, split]

theorem heights_spawn (s : State) : s.spawn.heights = s.heights ++ [s.nextDaHeight] := by
  simp [State.heights, State.spawn]

/-- An answer changes nothing about what is in flight. -/
theorem heights_answer {front back : List Task} {a : Nat} {out out' : Option Answer}
    (split : s.pending = front ++ ⟨a, out⟩ :: back) :
    ({ s with pending := front ++ ⟨a, out'⟩ :: back } : State).heights = s.heights := by
  rw [heights_split split]
  simp [State.heights]

/-- Leaving the set takes the task's own height out of flight. -/
theorem mem_heights_split {front back : List Task} {a g : Nat} {out : Option Answer}
    (split : s.pending = front ++ ⟨a, out⟩ :: back) :
    g ∈ s.heights ↔ g = a ∨ g ∈ ({ s with pending := front ++ back } : State).heights := by
  rw [heights_split split]
  simp only [State.heights, List.map_append, List.mem_append, List.mem_cons]
  tauto

/-- A polling queue asks for more only when it holds nothing at all. -/
theorem empty_of_room (hm : s.mode = .poll)
    (room : s.pending.length + s.completed.size < s.mode.concurrency) :
    s.pending = [] ∧ s.completed.keys = [] := by
  simp only [hm, Mode.concurrency, Nat.lt_one_iff, Nat.add_eq_zero_iff,
    List.length_eq_zero_iff] at room
  exact ⟨room.1, SortedMap.size_eq_zero.mp room.2⟩

theorem Sound.spawn (h : Sound gave s)
    (room : s.pending.length + s.completed.size < s.mode.concurrency) :
    Sound gave s.spawn := by
  have hfresh : s.nextDaHeight ∉ s.heights ∧ s.nextDaHeight ∉ s.completed.keys := by
    cases hm : s.mode with
    | batch =>
      refine ⟨fun hi => ?_, fun hk => ?_⟩
      · exact Nat.lt_irrefl _ (h.ahead hm _ (Or.inl hi)).2
      · exact Nat.lt_irrefl _ (h.ahead hm _ (Or.inr hk)).2
    | poll =>
      obtain ⟨hp, hk⟩ := empty_of_room hm room
      simp [State.heights, hp, hk]
  have hheights := heights_spawn s
  refine ⟨?_, h.keyed, ?_, ?_, ?_, ?_⟩
  · intro task ht out ho
    rcases List.mem_append.mp ht with ht | ht
    · exact h.answers task ht out ho
    · rw [List.mem_singleton.mp ht] at ho
      cases ho
  · rw [hheights]
    exact List.nodup_append.mpr ⟨h.distinct, List.nodup_singleton _, by
      intro a ha b hb he
      rw [List.mem_singleton.mp hb] at he
      exact hfresh.1 (he ▸ ha)⟩
  · intro a ha
    rw [hheights] at ha
    rcases List.mem_append.mp ha with ha | ha
    · exact h.apart a ha
    · exact List.mem_singleton.mp ha ▸ hfresh.2
  · intro hm
    exact Nat.le_succ_of_le (h.cursors hm)
  · intro hm a ha
    change s.nextToEmit ≤ a ∧ a < s.nextDaHeight + 1
    rw [hheights] at ha
    rcases ha with ha | ha
    · rcases List.mem_append.mp ha with ha | ha
      · have := h.ahead hm a (Or.inl ha)
        omega
      · have := h.cursors hm
        rw [List.mem_singleton.mp ha]
        omega
    · have := h.ahead hm a (Or.inr ha)
      omega

theorem Sound.answer (h : Sound gave s) {front back : List Task} {a : Nat} {out : Answer}
    (split : s.pending = front ++ ⟨a, none⟩ :: back) (hg : gave a out) :
    Sound gave { s with pending := front ++ ⟨a, some out⟩ :: back } := by
  have hheights : ({ s with pending := front ++ ⟨a, some out⟩ :: back } : State).heights =
      s.heights := heights_answer split
  refine ⟨?_, h.keyed, hheights ▸ h.distinct, hheights ▸ h.apart, h.cursors, ?_⟩
  · intro task ht o ho
    rcases List.mem_append.mp ht with ht | ht
    · exact h.answers task (by simp [split, ht]) o ho
    · rcases List.mem_cons.mp ht with rfl | ht
      · exact Option.some.inj ho ▸ hg
      · exact h.answers task (by simp [split, ht]) o ho
  · intro hm b hb
    rw [hheights] at hb
    exact h.ahead hm b hb

/-- The answer of a finished task is one that was given for its height. -/
theorem Sound.given (h : Sound gave s) {front back : List Task} {a : Nat} {out : Answer}
    (split : s.pending = front ++ ⟨a, some out⟩ :: back) : gave a out :=
  h.answers ⟨a, some out⟩ (by simp [split]) out rfl

/-- A finished task leaves the set: its height is neither in flight any more
nor in the buffer yet. -/
theorem Sound.leave (h : Sound gave s) {front back : List Task} {a : Nat} {out : Answer}
    (split : s.pending = front ++ ⟨a, some out⟩ :: back) :
    Sound gave { s with pending := front ++ back } ∧ gave a out ∧
      a ∉ ({ s with pending := front ++ back } : State).heights ∧ a ∉ s.completed.keys ∧
      (s.mode = .batch → s.nextToEmit ≤ a ∧ a < s.nextDaHeight) := by
  have hmem : a ∈ s.heights := (mem_heights_split split).mpr (Or.inl rfl)
  have hsub : ∀ b ∈ ({ s with pending := front ++ back } : State).heights, b ∈ s.heights :=
    fun b hb => (mem_heights_split split).mpr (Or.inr hb)
  have hd := h.distinct
  rw [heights_split split, List.nodup_middle, List.nodup_cons, ← List.map_append] at hd
  refine ⟨⟨?_, h.keyed, hd.2, ?_, h.cursors, ?_⟩, h.given split, hd.1, h.apart a hmem,
    fun hm => h.ahead hm a (Or.inl hmem)⟩
  · intro task ht o ho
    refine h.answers task ?_ o ho
    rw [split]
    rcases List.mem_append.mp ht with ht | ht
    · exact List.mem_append_left _ ht
    · exact List.mem_append_right _ (List.mem_cons_of_mem _ ht)
  · intro b hb
    exact h.apart b (hsub b hb)
  · intro hm b hb
    exact h.ahead hm b (hb.imp_left (hsub b))

theorem Sound.store (h : Sound gave s) {block : Block} (hg : gave block.number (.ok (some block)))
    (hi : block.number ∉ s.heights)
    (hb : s.mode = .batch → s.nextToEmit ≤ block.number ∧ block.number < s.nextDaHeight) :
    Sound gave { s with completed := s.completed.insert block.number block, point := .emit } := by
  refine ⟨h.answers, ?_, h.distinct, ?_, h.cursors, ?_⟩
  · intro k b hk
    rw [SortedMap.get?_insert] at hk
    split at hk
    · rename_i he
      cases hk
      exact he ▸ hg
    · exact h.keyed k b hk
  · intro a ha hk
    rcases SortedMap.mem_keys_insert.mp hk with he | hk
    · exact hi (he ▸ ha)
    · exact h.apart a ha hk
  · intro hm a ha
    rcases ha with ha | ha
    · exact h.ahead hm a (Or.inl ha)
    · rcases SortedMap.mem_keys_insert.mp ha with rfl | ha
      · exact hb hm
      · exact h.ahead hm a (Or.inr ha)

theorem Sound.joined (hf : Faithful gave) (h : Sound gave s) {front back : List Task} {a : Nat}
    {out : Answer} (split : s.pending = front ++ ⟨a, some out⟩ :: back) :
    Sound gave (({ s with pending := front ++ back } : State).joined out) := by
  obtain ⟨hrest, hg, hi, -, hb⟩ := h.leave split
  cases out with
  | error err =>
    cases err with
    | rateLimited => exact hrest.move .emit
    | other err => exact hrest.move (.returned (.rpc err))
  | ok found =>
    cases found with
    | some block =>
      have hn : block.number = a := hf a block hg
      exact hrest.store (hn ▸ hg) (hn ▸ hi) (hn ▸ hb)
    | none =>
      cases hm : s.mode with
      | batch =>
        simp only [State.joined]
        exact ⟨hrest.answers, hrest.keyed, hrest.distinct, hrest.apart, nofun, nofun⟩
      | poll =>
        simp only [State.joined]
        exact ⟨hrest.answers, hrest.keyed, hrest.distinct, hrest.apart, nofun, nofun⟩

/-- Taking the block of `next_to_emit` out, with the cursor moved on or not. -/
theorem Sound.take (h : Sound gave s) (point : Point) (sent : List Block) {next : Nat}
    (hn : next = s.nextToEmit ∨ next = s.nextToEmit + 1) (hk : s.nextToEmit ∈ s.completed.keys) :
    Sound gave { s with
      completed := s.completed.erase s.nextToEmit
      nextToEmit := next
      point := point
      sent := sent } := by
  refine ⟨h.answers, ?_, h.distinct, ?_, ?_, ?_⟩
  · intro k b hkb
    rw [SortedMap.get?_erase] at hkb
    split at hkb
    · cases hkb
    · exact h.keyed k b hkb
  · intro a ha hka
    exact h.apart a ha (SortedMap.mem_keys_erase.mp hka).2
  · intro hm
    have := h.ahead hm _ (Or.inr hk)
    dsimp only
    omega
  · intro hm a ha
    have hne : a ≠ s.nextToEmit := by
      rintro rfl
      rcases ha with ha | ha
      · exact h.apart _ ha hk
      · exact (SortedMap.mem_keys_erase.mp ha).1 rfl
    have := h.ahead hm a (ha.imp_right (fun ha => (SortedMap.mem_keys_erase.mp ha).2))
    dsimp only
    omega

theorem head_mem_keys {block : Block} (head : s.completed.first? = some (s.nextToEmit, block)) :
    s.nextToEmit ∈ s.completed.keys :=
  SortedMap.mem_keys.mpr ⟨block, (SortedMap.first?_eq_some.mp head).1⟩

theorem Sound.step (hf : Faithful gave) (h : Sound gave s) {e : Event} (ha : Admitted gave s e)
    (hst : Stepped s e t) : Sound gave t := by
  cases hst with
  | spawn here room => exact h.spawn room
  | full here room => exact h.move .join
  | idle here none => exact h.move .emit
  | answer front back a out split =>
    refine h.answer split (ha ⟨a, none⟩ ?_)
    simp [split]
  | join front back a out here split => exact h.joined hf split
  | send block here head =>
    exact h.take s.point _ (Or.inr rfl) (head_mem_keys head)
  | done here head => exact h.move .refill
  | dropped block here head =>
    exact h.take (.returned .receiverDropped) s.sent (Or.inl rfl) (head_mem_keys head)

/-- Every height between the cursors is on its way or buffered. -/
def Covered (s : State) : Prop :=
  ∀ h, s.nextToEmit ≤ h → h < s.nextDaHeight → h ∈ s.heights ∨ h ∈ s.completed.keys

/-- If the event joins an answer at all, it is a block. -/
def joinsBlock (s : State) : Event → Bool
  | .join i =>
    match s.pending[i]? with
    | some ⟨_, some (.ok (some _))⟩ => true
    | _ => false
  | _ => true

theorem startFrom_covered (daHeight : Nat) : Covered (startFrom daHeight) := by
  intro h hlo hhi
  exact absurd hlo (Nat.not_le_of_lt hhi)

theorem Covered.step (hf : Faithful gave) (hs : Sound gave s) (hc : Covered s) {e : Event}
    (hst : Stepped s e t) (hblock : joinsBlock s e = true) (hgo : t.Running) : Covered t := by
  cases hst with
  | spawn here room =>
    intro h hlo hhi
    rcases Nat.lt_succ_iff_lt_or_eq.mp hhi with hhi | rfl
    · apply (hc h hlo hhi).imp_left
      intro hm
      rw [heights_spawn]
      exact List.mem_append_left _ hm
    · exact Or.inl (by simp [heights_spawn])
  | full | idle | done => exact hc
  | answer front back a out split =>
    intro h hlo hhi
    rw [heights_answer split]
    exact hc h hlo hhi
  | join front back a out here split =>
    have hg := hs.given split
    match out, hg with
    | .error err, _ => simp [joinsBlock, split] at hblock
    | .ok none, _ => simp [joinsBlock, split] at hblock
    | .ok (some block), hg =>
      have hn : block.number = a := hf a block hg
      intro h hlo hhi
      -- the height joined moves from the set to the buffer
      rcases hc h hlo hhi with hm | hm
      · rcases (mem_heights_split split).mp hm with he | hm
        · exact Or.inr (SortedMap.mem_keys_insert.mpr (Or.inl (he.trans hn.symm)))
        · exact Or.inl hm
      · exact Or.inr (SortedMap.mem_keys_insert.mpr (Or.inr hm))
  | send block here head =>
    intro h hlo hhi
    change s.nextToEmit + 1 ≤ h at hlo
    apply (hc h (by omega) hhi).imp_right
    intro hm
    exact SortedMap.mem_keys_erase.mpr ⟨by omega, hm⟩
  | dropped block here head => exact absurd rfl (hgo _)

/-- What has been sent so far: consecutive heights, each block as given. -/
structure InOrder (gave : Nat → Answer → Prop) (daHeight : Nat) (s : State) : Prop where
  cursor : s.nextToEmit = daHeight + s.sent.length
  numbers : s.sent.map Block.number = List.range' daHeight s.sent.length
  given : ∀ block ∈ s.sent, gave block.number (.ok (some block))
  bounded : s.pending.length + s.completed.size ≤ 8

theorem Mode.concurrency_le (m : Mode) : m.concurrency ≤ 8 := by
  cases m <;> decide

/-- Joining an answer moves at most its own place from the set to the buffer. -/
theorem joined_bounded (s : State) (out : Answer) :
    (s.joined out).pending.length + (s.joined out).completed.size ≤
      s.pending.length + s.completed.size + 1 := by
  cases out with
  | error err => cases err <;> simp [State.joined]
  | ok found =>
    cases found with
    | some block =>
      have := SortedMap.size_insert_le s.completed block.number block
      simp only [State.joined]
      omega
    | none => cases hm : s.mode <;> simp [State.joined, hm]

theorem joined_sent (s : State) (out : Answer) :
    (s.joined out).sent = s.sent ∧ (s.joined out).nextToEmit = s.nextToEmit := by
  cases out with
  | error err => cases err <;> exact ⟨rfl, rfl⟩
  | ok found =>
    cases found with
    | some block => exact ⟨rfl, rfl⟩
    | none => cases hm : s.mode <;> simp [State.joined, hm]

theorem InOrder.step {daHeight : Nat} (hf : Faithful gave) (hs : Sound gave s)
    (h : InOrder gave daHeight s) {e : Event} (hst : Stepped s e t) : InOrder gave daHeight t := by
  cases hst with
  | spawn here room =>
    refine ⟨h.cursor, h.numbers, h.given, ?_⟩
    have := s.mode.concurrency_le
    simp only [State.spawn, List.length_append, List.length_singleton]
    omega
  | full here room => exact ⟨h.cursor, h.numbers, h.given, h.bounded⟩
  | idle here none => exact ⟨h.cursor, h.numbers, h.given, h.bounded⟩
  | answer front back a out split =>
    refine ⟨h.cursor, h.numbers, h.given, ?_⟩
    have := h.bounded
    simpa [split] using this
  | join front back a out here split =>
    obtain ⟨hsent, hnext⟩ := joined_sent { s with pending := front ++ back } out
    refine ⟨by rw [hsent, hnext]; exact h.cursor, by rw [hsent]; exact h.numbers,
      by rw [hsent]; exact h.given, ?_⟩
    have := joined_bounded { s with pending := front ++ back } out
    have := h.bounded
    simp only [split, List.length_append, List.length_cons] at *
    omega
  | send block here head =>
    obtain ⟨hb, -⟩ := SortedMap.first?_eq_some.mp head
    have hg := hs.keyed _ _ hb
    have hn : block.number = s.nextToEmit := hf _ _ hg
    refine ⟨?_, ?_, ?_, ?_⟩
    · simp only [State.sendHead, List.length_append, List.length_singleton, h.cursor]
      omega
    · simp [State.sendHead, h.numbers, hn, h.cursor, List.range'_concat]
    · intro b hm
      rcases List.mem_append.mp hm with hm | hm
      · exact h.given b hm
      · rw [List.mem_singleton.mp hm, hn]
        exact hg
    · have := SortedMap.size_erase_first head
      have := h.bounded
      simp only [State.sendHead]
      omega
  | done here head => exact ⟨h.cursor, h.numbers, h.given, h.bounded⟩
  | dropped block here head =>
    refine ⟨h.cursor, h.numbers, h.given, ?_⟩
    have := SortedMap.size_erase_first head
    have := h.bounded
    dsimp only
    omega

theorem startFrom_inOrder (daHeight : Nat) : InOrder gave daHeight (startFrom daHeight) :=
  ⟨rfl, rfl, by simp [startFrom], by simp [startFrom]⟩

theorem run_inOrder (hf : Faithful gave) {daHeight : Nat}
    (run : Run step (Admitted gave) (startFrom daHeight) s) : InOrder gave daHeight s := by
  have hboth : Sound gave s ∧ InOrder gave daHeight s := by
    apply run.invariant (motive := fun s => Sound gave s ∧ InOrder gave daHeight s)
      ⟨startFrom_sound daHeight, startFrom_inOrder daHeight⟩
    intro u v e h ha hst
    obtain ⟨hs, ho⟩ := h
    exact ⟨hs.step hf ha (step_cases hst), ho.step hf hs (step_cases hst)⟩
  exact hboth.2

/-- The height asked for and what came back, when the event is an answer. -/
def answered (s : State) : Event → List (Nat × Answer)
  | .answer i response => s.pending[i]?.toList.map (fun task => (task.height, getBlock response))
  | _ => []

/-- The queue beside a log of everything the provider answered. -/
def stepLogged (x : State × List (Nat × Answer)) (e : Event) :
    Option (State × List (Nat × Answer)) :=
  (step x.1 e).map (fun t => (t, x.2 ++ answered x.1 e))

theorem admitted_of_answered {log : List (Nat × Answer)} {e : Event}
    (h : ∀ entry ∈ answered s e, entry ∈ log) :
    Admitted (fun height out => (height, out) ∈ log) s e := by
  cases e with
  | answer i response =>
    intro task ht
    exact h _ (List.mem_map.mpr ⟨task, by simpa using ht, rfl⟩)
  | join i => trivial
  | advance => trivial
  | hangUp => trivial

/-- A logged run is a run whose answers are all in its final log. -/
theorem run_of_logged {x y : State × List (Nat × Answer)}
    (run : Run stepLogged (fun _ _ => True) x y) {log : List (Nat × Answer)}
    (hlog : ∀ entry ∈ y.2, entry ∈ log) :
    Run step (Admitted (fun h out => (h, out) ∈ log)) x.1 y.1 := by
  induction run with
  | start => exact .start
  | next _ _ hst ih =>
    obtain ⟨w, hw, rfl⟩ := Option.map_eq_some_iff.mp hst
    have hsplit := List.forall_mem_append.mp hlog
    exact (ih hsplit.1).next (admitted_of_answered hsplit.2) hw

/-- Whatever the order and the mix of answers, the blocks sent are those of
consecutive heights from the first one on, each of them an answer to a request
for its own height, and at most eight blocks are in flight or waiting. -/
theorem sends_in_order {daHeight : Nat} {log : List (Nat × Answer)}
    (run : Run stepLogged (fun _ _ => True) (startFrom daHeight, []) (s, log))
    (hf : ∀ h block, (h, .ok (some block)) ∈ log → block.number = h) :
    s.sent.map Block.number = List.range' daHeight s.sent.length ∧
    (∀ block ∈ s.sent, (block.number, .ok (some block)) ∈ log) ∧
    s.pending.length + s.completed.size ≤ 8 := by
  have hfaithful : Faithful (fun h out => (h, out) ∈ log) := hf
  have ho := run_inOrder hfaithful (run_of_logged run (fun _ he => he))
  exact ⟨ho.numbers, ho.given, ho.bounded⟩

/-- A block of the given number and nothing else. -/
def bareBlock (number : Nat) : Block := ⟨⟨number, [], [], none⟩, .full []⟩

/-- So many steps of `stream_inner` on its own. -/
def advances (n : Nat) : List Event := List.replicate n .advance

/-- Eight requests from height 7 on, of which the second is answered first. -/
def secondFirst : List Event :=
  List.flatten [advances 9,
    [.answer 1 (.ok (some (bareBlock 8))), .answer 0 (.ok (some (bareBlock 7)))],
    [.join 1], advances 2, [.join 0], advances 2]

theorem sends_in_order_second_first :
    ∃ s : State,
      Run stepLogged (fun _ _ => True) (startFrom 7, [])
        (s, [(8, .ok (some (bareBlock 8))), (7, .ok (some (bareBlock 7)))]) ∧
      s.sent.length = 2 ∧ s.sent.map Block.number = [7, 8] := by
  obtain ⟨⟨s, log⟩, run, hlen, rfl⟩ :
      ∃ x, Run stepLogged (fun _ _ => True) (startFrom 7, []) x ∧ x.1.sent.length = 2 ∧
        x.2 = [(8, .ok (some (bareBlock 8))), (7, .ok (some (bareBlock 7)))] :=
    Run.exists_of_drive secondFirst (by decide)
  have h := sends_in_order run (by
    intro height block hm
    simp only [List.mem_cons, Prod.mk.injEq, Except.ok.injEq, Option.some.injEq,
      List.not_mem_nil, or_false] at hm
    rcases hm with ⟨rfl, rfl⟩ | ⟨rfl, rfl⟩ <;> rfl)
  exact ⟨s, run, hlen, by rw [h.1, hlen]; rfl⟩

end Watchtower.Downloader.Queue
