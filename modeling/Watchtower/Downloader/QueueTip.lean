import Watchtower.Downloader.QueueRewind

namespace Watchtower.Downloader.Queue
open Lib

/-- What a node whose chain ends at `tip` says about a height. -/
def NodeAnswers (tip h : Nat) : Answer → Prop
  | .ok (some block) => h ≤ tip ∧ block.number = h
  | .ok none => tip < h
  | .error _ => False

instance (tip h : Nat) : (out : Answer) → Decidable (NodeAnswers tip h out)
  | .ok (some block) => inferInstanceAs (Decidable (h ≤ tip ∧ block.number = h))
  | .ok none => inferInstanceAs (Decidable (tip < h))
  | .error _ => inferInstanceAs (Decidable False)

theorem NodeAnswers.blockOrNone {tip h : Nat} {out : Answer} (ha : NodeAnswers tip h out) :
    BlockOrNone h out := by
  match out, ha with
  | .ok (some _), ha => exact ha.2
  | .ok none, _ => trivial

/-- The queue and the node it asks. -/
structure World where
  queue : State
  tip : Nat
  deriving DecidableEq

inductive WorldEvent where
  | grow (tip : Nat)
  | queue (e : Event)
  deriving DecidableEq

/-- The tip only grows. -/
def World.step (w : World) : WorldEvent → Option World
  | .grow tip => if w.tip ≤ tip then some { w with tip := tip } else none
  | .queue e => (Queue.step w.queue e).map (fun s => { w with queue := s })

/-- An answer is the one of the node at that moment. -/
def AtTip (w : World) : WorldEvent → Prop
  | .grow _ => True
  | .queue e => Admitted (NodeAnswers w.tip) w.queue e

instance (w : World) : (e : WorldEvent) → Decidable (AtTip w e)
  | .grow _ => inferInstanceAs (Decidable True)
  | .queue e => inferInstanceAs (Decidable (Admitted (NodeAnswers w.tip) w.queue e))

variable {s t : State} {w v : World}

theorem Admitted.mono {gave other : Nat → Answer → Prop} (hle : ∀ h out, gave h out → other h out)
    {e : Event} (ha : Admitted gave s e) : Admitted other s e := by
  cases e with
  | answer i out => exact fun task ht => hle _ _ (ha task ht)
  | join | advance | hangUp => trivial

/-- Some height from the emit cursor up to `k` is neither on its way nor
buffered. -/
def holeBelow (s : State) (k : Nat) : Bool :=
  (List.range' s.nextToEmit (k - s.nextToEmit)).any
    (fun g => g ∉ s.heights ∧ g ∉ s.completed.keys)

theorem holeBelow_iff {k : Nat} : holeBelow s k = true ↔
    ∃ g, s.nextToEmit ≤ g ∧ g < k ∧ g ∉ s.heights ∧ g ∉ s.completed.keys := by
  simp only [holeBelow, List.any_eq_true, List.mem_range'_1, decide_eq_true_eq]
  constructor
  · intro h
    obtain ⟨g, ⟨hlo, hhi⟩, hg⟩ := h
    exact ⟨g, hlo, by omega, hg⟩
  · intro h
    obtain ⟨g, hlo, hhi, hg⟩ := h
    exact ⟨g, ⟨hlo, by omega⟩, hg⟩

/-- The event joins a block that was emitted before or lies above a missing
height, or a `None` for a height below a buffered block. -/
def joinsOutOfPlace (s : State) : Event → Bool
  | .join i =>
    match s.pending[i]? with
    | some ⟨h, some (.ok (some _))⟩ => h < s.nextToEmit || holeBelow s h
    | some ⟨h, some (.ok none)⟩ => s.nextToEmit ≤ h && s.completed.keys.any (h < ·)
    | _ => false
  | _ => false

/-- Every buffered block waits only for heights that are on their way. -/
structure Gapless (s : State) : Prop where
  waiting : ∀ k ∈ s.completed.keys, s.nextToEmit ≤ k ∧ holeBelow s k = false
  settled : s.point ≠ .emit → s.nextToEmit ∉ s.completed.keys

theorem startFrom_gapless (daHeight : Nat) : Gapless (startFrom daHeight) := by
  refine ⟨?_, ?_⟩ <;> simp [startFrom]

/-- The least buffered height is `next_to_emit` itself unless something is in
flight, and the emit loop would have sent it. -/
theorem Gapless.pending_ne_nil (h : Gapless s) (here : s.point = .join)
    (full : s.mode.concurrency ≤ s.pending.length + s.completed.size) : s.pending ≠ [] := by
  intro hp
  have hsettled := h.settled (by simp [here])
  have hpos : 0 < s.completed.size := by
    have : 0 < s.mode.concurrency := by cases s.mode <;> decide
    simp only [hp, List.length_nil, Nat.zero_add] at full
    omega
  obtain ⟨⟨k, block⟩, hf⟩ : ∃ e, s.completed.first? = some e := by
    cases hf : s.completed.first? with
    | some e => exact ⟨e, rfl⟩
    | none =>
      have := SortedMap.size_eq_zero.mpr (SortedMap.first?_eq_none.mp hf)
      omega
  obtain ⟨hk, hleast⟩ := SortedMap.first?_eq_some.mp hf
  obtain ⟨hle, hno⟩ := h.waiting k (SortedMap.mem_keys.mpr ⟨block, hk⟩)
  have hlt : s.nextToEmit < k := by
    refine Nat.lt_of_le_of_ne hle (fun he => hsettled ?_)
    exact SortedMap.mem_keys.mpr ⟨block, he ▸ hk⟩
  have hhole : holeBelow s k = true :=
    holeBelow_iff.mpr ⟨s.nextToEmit, Nat.le_refl _, hlt, by simp [State.heights, hp], hsettled⟩
  rw [hno] at hhole
  cases hhole

/-- A change that drops no height from those on their way or buffered, above
the emit cursor, opens no hole. -/
theorem holeBelow_mono {k : Nat} (h : holeBelow s k = false)
    (hn : s.nextToEmit ≤ t.nextToEmit)
    (hkeep : ∀ g, t.nextToEmit ≤ g → g < k → g ∈ s.heights ∨ g ∈ s.completed.keys →
      g ∈ t.heights ∨ g ∈ t.completed.keys) : holeBelow t k = false := by
  cases hb : holeBelow t k with
  | false => rfl
  | true =>
    obtain ⟨g, hlo, hhi, hg⟩ := holeBelow_iff.mp hb
    have : holeBelow s k = true := by
      refine holeBelow_iff.mpr ⟨g, hn.trans hlo, hhi, ?_, ?_⟩
      · exact fun hm => (hkeep g hlo hhi (Or.inl hm)).elim hg.1 hg.2
      · exact fun hm => (hkeep g hlo hhi (Or.inr hm)).elim hg.1 hg.2
    rw [h] at this
    cases this

theorem Gapless.joined (h : Gapless s) (hs : Sound BlockOrNone s) (here : s.point = .join)
    {front back : List Task} {a : Nat} {out : Answer}
    (split : s.pending = front ++ ⟨a, some out⟩ :: back)
    (hno : joinsOutOfPlace s (.join front.length) = false) :
    Gapless (({ s with pending := front ++ back } : State).joined out) := by
  have hg := hs.given split
  have hrest : ∀ g ∈ s.heights, g = a ∨
      g ∈ ({ s with pending := front ++ back } : State).heights :=
    fun g hm => (mem_heights_split split).mp hm
  have hsettled := h.settled (by simp [here])
  cases out with
  | error err => exact False.elim hg
  | ok found =>
    cases found with
    | some block =>
      have hn : block.number = a := hg
      have hplace : s.nextToEmit ≤ a ∧ holeBelow s a = false := by
        simpa [joinsOutOfPlace, split] using hno
      -- the height joined moves from the set to the buffer
      have hkeep : ∀ g, g ∈ s.heights ∨ g ∈ s.completed.keys →
          g ∈ ({ s with pending := front ++ back } : State).heights ∨
          g ∈ (s.completed.insert block.number block).keys := by
        rintro g (hm | hm)
        · rcases hrest g hm with rfl | hm
          · exact Or.inr (SortedMap.mem_keys_insert.mpr (Or.inl hn.symm))
          · exact Or.inl hm
        · exact Or.inr (SortedMap.mem_keys_insert.mpr (Or.inr hm))
      refine ⟨?_, fun hne => absurd rfl hne⟩
      intro k hk
      have hold : s.nextToEmit ≤ k ∧ holeBelow s k = false := by
        rcases SortedMap.mem_keys_insert.mp hk with rfl | hk
        · exact hn ▸ hplace
        · exact h.waiting k hk
      exact ⟨hold.1, holeBelow_mono hold.2 (Nat.le_refl _) (fun g _ _ hm => hkeep g hm)⟩
    | none =>
      have hplace : s.nextToEmit ≤ a → ∀ k ∈ s.completed.keys, k ≤ a := by
        simpa [joinsOutOfPlace, split] using hno
      have hwait : ∀ k ∈ s.completed.keys, s.nextToEmit ≤ k ∧
          holeBelow { s with pending := front ++ back } k = false := by
        intro k hk
        obtain ⟨hle, hold⟩ := h.waiting k hk
        refine ⟨hle, holeBelow_mono hold (Nat.le_refl _) ?_⟩
        intro g hlo hhi hm
        refine hm.imp_left (fun hm => (hrest g hm).resolve_left ?_)
        rintro rfl
        exact absurd (hplace hlo k hk) (Nat.not_le_of_lt hhi)
      cases hm : s.mode with
      | batch =>
        simp only [State.joined]
        exact ⟨hwait, fun hne => absurd rfl hne⟩
      | poll =>
        simp only [State.joined]
        exact ⟨hwait, fun _ => hsettled⟩

theorem Gapless.step (h : Gapless s) (hs : Sound BlockOrNone s) {e : Event}
    (hst : Stepped s e t) (hno : joinsOutOfPlace s e = false) (hgo : t.Running) : Gapless t := by
  cases hst with
  | spawn here room =>
    refine ⟨fun k hk => ?_, fun _ => h.settled (by simp [here])⟩
    obtain ⟨hle, hold⟩ := h.waiting k hk
    refine ⟨hle, holeBelow_mono hold (Nat.le_refl _) ?_⟩
    intro g _ _ hm
    apply hm.imp_left
    intro hm
    rw [heights_spawn]
    exact List.mem_append_left _ hm
  | full here room =>
    exact ⟨h.waiting, fun _ => h.settled (by simp [here])⟩
  | idle here none => exact ⟨h.waiting, fun hne => absurd rfl hne⟩
  | answer front back a out split =>
    refine ⟨fun k hk => ?_, h.settled⟩
    obtain ⟨hle, hold⟩ := h.waiting k hk
    refine ⟨hle, holeBelow_mono hold (Nat.le_refl _) ?_⟩
    intro g _ _ hm
    rwa [heights_answer split]
  | join front back a out here split => exact h.joined hs here split hno
  | send block here head =>
    refine ⟨fun k hk => ?_, fun hne => absurd here hne⟩
    obtain ⟨hne, hk⟩ := SortedMap.mem_keys_erase.mp hk
    obtain ⟨hle, hold⟩ := h.waiting k hk
    refine ⟨Nat.lt_of_le_of_ne hle (Ne.symm hne), holeBelow_mono hold (Nat.le_succ _) ?_⟩
    intro g hlo _ hm
    change s.nextToEmit + 1 ≤ g at hlo
    exact hm.imp_right (fun hm => SortedMap.mem_keys_erase.mpr ⟨by omega, hm⟩)
  | done here head =>
    refine ⟨h.waiting, fun _ => ?_⟩
    rcases head with hn | ⟨k, hk, hlt⟩
    · exact hn
    · exact absurd (h.waiting k hk).1 (Nat.not_le_of_lt hlt)
  | dropped block here head => exact absurd rfl (hgo _)

theorem joined_point (s : State) (out : Answer) : (s.joined out).point ≠ .join := by
  cases out with
  | error err => cases err <;> simp [State.joined]
  | ok found =>
    cases found with
    | some block => simp [State.joined]
    | none => cases hm : s.mode <;> simp [State.joined, hm]

/-- Until the switch to polling, the only answers joined are blocks. -/
theorem joinsBlock_of_batch (hs : Sound BlockOrNone s) {e : Event} (hst : Stepped s e t)
    (hm : t.mode = .batch) : s.mode = .batch ∧ joinsBlock s e = true := by
  cases hst with
  | join front back a out here split =>
    have hg := hs.given split
    match out, hg with
    | .ok (some block), _ => exact ⟨hm, by simp [joinsBlock, split]⟩
    | .ok none, _ =>
      cases hold : s.mode with
      | batch => simp [State.joined, hold] at hm
      | poll => simp [State.joined, hold] at hm
  | spawn | full | idle | answer | send | done | dropped => exact ⟨hm, rfl⟩

/-- What the queue keeps while its node answers by its tip, and no answer is
joined out of place. -/
structure InPlace (s : State) : Prop where
  sound : Sound BlockOrNone s
  gapless : s.Running → Gapless s
  covered : s.mode = .batch → s.Running → Covered s
  full : s.point = .join → s.mode.concurrency ≤ s.pending.length + s.completed.size

theorem startFrom_inPlace (daHeight : Nat) : InPlace (startFrom daHeight) :=
  ⟨startFrom_sound daHeight, fun _ => startFrom_gapless daHeight,
    fun _ _ => startFrom_covered daHeight, by simp [startFrom]⟩

theorem InPlace.step (h : InPlace s) {e : Event} (ha : Admitted BlockOrNone s e)
    (hst : Stepped s e t) (hno : joinsOutOfPlace s e = false) : InPlace t := by
  refine ⟨h.sound.step blockOrNone_faithful ha hst,
    fun hgo => (h.gapless (hst.running hgo)).step h.sound hst hno hgo, ?_, ?_⟩
  · intro hm hgo
    obtain ⟨hold, hb⟩ := joinsBlock_of_batch h.sound hst hm
    exact (h.covered hold (hst.running hgo)).step blockOrNone_faithful h.sound hst hb hgo
  · cases hst with
    | full here room => exact fun _ => room
    | answer front back a out split =>
      intro here
      have := h.full here
      simpa [split] using this
    | join front back a out here split => exact fun hj => absurd hj (joined_point _ out)
    | spawn here => exact fun hj => by simp [State.spawn, here] at hj
    | idle | done | dropped =>
      intro hj
      cases hj
    | send block here => exact fun hj => by simp [State.sendHead, here] at hj

/-- The queue polls, but with a block in its buffer that can never be sent:
one sent before, or one above a height that is not coming. -/
def Doomed (s : State) : Prop :=
  s.mode = .poll ∧ ∃ k ∈ s.completed.keys, k < s.nextToEmit ∨ holeBelow s k = true

/-- With a block left in the buffer a polling queue asks for nothing. -/
theorem Doomed.full (h : Doomed s) : s.mode.concurrency ≤ s.completed.size := by
  obtain ⟨hm, k, hk, -⟩ := h
  have : s.completed.size ≠ 0 := fun hz => by
    rw [SortedMap.size_eq_zero.mp hz] at hk
    cases hk
  rw [hm]
  exact Nat.one_le_iff_ne_zero.mpr this

theorem joinsOutOfPlace_doomed (h : InPlace s) {e : Event} (hst : Stepped s e t)
    (hj : joinsOutOfPlace s e = true) : Doomed t := by
  cases hst with
  | join front back a out here split =>
    have hgo : s.Running := by simp [State.Running, here]
    obtain ⟨-, hg, hi, hk, hb⟩ := h.sound.leave split
    cases out with
    | error err => exact hg.elim
    | ok answer =>
      cases answer with
      | some block =>
        have hn : block.number = a := hg
        have hplace : a < s.nextToEmit ∨ holeBelow s a = true := by
          simpa [joinsOutOfPlace, split] using hj
        have hm : s.mode = .poll := by
          cases hm : s.mode with
          | poll => rfl
          | batch =>
            obtain ⟨hlo, hhi⟩ := hb hm
            rcases hplace with hlt | hhole
            · omega
            · obtain ⟨g, hg, hga, hgi, hgk⟩ := holeBelow_iff.mp hhole
              exact ((h.covered hm hgo g hg (by omega)).elim hgi hgk).elim
        refine ⟨hm, a, SortedMap.mem_keys_insert.mpr (Or.inl hn.symm), hplace.imp_right ?_⟩
        intro hhole
        obtain ⟨g, hg, hga, hgi, hgk⟩ := holeBelow_iff.mp hhole
        rw [mem_heights_split split, not_or] at hgi
        refine holeBelow_iff.mpr ⟨g, hg, hga, hgi.2, ?_⟩
        · simp only [State.joined, SortedMap.mem_keys_insert, not_or]
          exact ⟨by omega, hgk⟩
      | none =>
        obtain ⟨hle, k, hkm, hlt⟩ : s.nextToEmit ≤ a ∧ ∃ k ∈ s.completed.keys, a < k := by
          simpa [joinsOutOfPlace, split] using hj
        cases hm : s.mode with
        | batch =>
          simp only [State.joined]
          exact ⟨rfl, k, hkm, Or.inr (holeBelow_iff.mpr ⟨a, hle, hlt, hi, hk⟩)⟩
        | poll =>
          simp only [State.joined]
          exact ⟨rfl, k, hkm, Or.inr (holeBelow_iff.mpr ⟨a, hle, hlt, hi, hk⟩)⟩
  | spawn | full | idle | answer | send | done | dropped => simp [joinsOutOfPlace] at hj

theorem Doomed.take (h : Doomed s) {block : Block} {next : Nat} {sent : List Block}
    {point : Point} (hn : next = s.nextToEmit ∨ next = s.nextToEmit + 1)
    (head : s.completed.first? = some (s.nextToEmit, block)) :
    Doomed { s with
      completed := s.completed.erase s.nextToEmit
      nextToEmit := next
      sent := sent
      point := point } := by
  obtain ⟨hm, k, hk, hd⟩ := h
  obtain ⟨-, hleast⟩ := SortedMap.first?_eq_some.mp head
  have hle := hleast k hk
  obtain ⟨g, hlo, hhi, hgi, hgk⟩ := holeBelow_iff.mp (hd.resolve_left (Nat.not_lt_of_le hle))
  have hne : g ≠ s.nextToEmit := fun he => hgk (he ▸ head_mem_keys head)
  refine ⟨hm, k, SortedMap.mem_keys_erase.mpr ⟨by omega, hk⟩, Or.inr ?_⟩
  refine holeBelow_iff.mpr ⟨g, by dsimp only; omega, hhi, hgi, ?_⟩
  exact fun hm => hgk (SortedMap.mem_keys_erase.mp hm).2

theorem Doomed.step (hs : Sound BlockOrNone s) (h : Doomed s) {e : Event} (hst : Stepped s e t) :
    Doomed t := by
  have hfull := h.full
  cases hst with
  | spawn here room => omega
  | full | idle | done => exact h
  | answer front back a out split =>
    obtain ⟨hm, k, hk, hd⟩ := h
    refine ⟨hm, k, hk, hd.imp_right (fun hd => ?_)⟩
    obtain ⟨g, hlo, hhi, hgi, hgk⟩ := holeBelow_iff.mp hd
    exact holeBelow_iff.mpr ⟨g, hlo, hhi, heights_answer split ▸ hgi, hgk⟩
  | send block here head => exact h.take (Or.inr rfl) head
  | dropped block here head => exact h.take (Or.inl rfl) head
  | join front back a out here split =>
    obtain ⟨hm, k, hk, hd⟩ := h
    have hg := hs.given split
    have hhole : ∀ g, g ∉ s.heights → g ≠ a ∧
        g ∉ ({ s with pending := front ++ back } : State).heights := by
      intro g hgi
      rwa [mem_heights_split split, not_or] at hgi
    match out, hg with
    | .ok none, _ =>
      simp only [State.joined, hm]
      refine ⟨rfl, k, hk, hd.imp_right (fun hd => ?_)⟩
      obtain ⟨g, hlo, hhi, hgi, hgk⟩ := holeBelow_iff.mp hd
      exact holeBelow_iff.mpr ⟨g, hlo, hhi, (hhole g hgi).2, hgk⟩
    | .ok (some block), hg =>
      have hn : block.number = a := hg
      refine ⟨hm, k, SortedMap.mem_keys_insert.mpr (Or.inr hk), hd.imp_right (fun hd => ?_)⟩
      obtain ⟨g, hlo, hhi, hgi, hgk⟩ := holeBelow_iff.mp hd
      refine holeBelow_iff.mpr ⟨g, hlo, hhi, (hhole g hgi).2, ?_⟩
      simp only [State.joined, SortedMap.mem_keys_insert, hn, not_or]
      exact ⟨(hhole g hgi).1, hgk⟩

/-- A step of the world is a step of the queue with an answer it could get, or
leaves the queue alone. -/
theorem world_step_cases {e : WorldEvent} (ha : AtTip w e) (hst : w.step e = some v) :
    v.queue = w.queue ∨
      ∃ q, e = .queue q ∧ Admitted BlockOrNone w.queue q ∧ Stepped w.queue q v.queue := by
  cases e with
  | grow tip =>
    simp only [World.step] at hst
    split at hst
    · cases hst
      exact Or.inl rfl
    · contradiction
  | queue q =>
    obtain ⟨t, ht, rfl⟩ := Option.map_eq_some_iff.mp hst
    exact Or.inr ⟨q, rfl, Admitted.mono (fun _ _ => NodeAnswers.blockOrNone) ha, step_cases ht⟩

def WorldEvent.outOfPlace (w : World) : WorldEvent → Bool
  | .grow _ => false
  | .queue e => joinsOutOfPlace w.queue e

/-- While no answer is joined out of place, every refill leaves a request in
flight, however the tip moves. After the first one that is, the refill test
never holds again. -/
theorem request_in_flight_unless_out_of_place (daHeight tip : Nat) :
    (∀ w, Run World.step (fun u e => AtTip u e ∧ e.outOfPlace u = false)
        ⟨startFrom daHeight, tip⟩ w → w.queue.point = .join → w.queue.pending ≠ []) ∧
    (∀ u v w e, Run World.step (fun u e => AtTip u e ∧ e.outOfPlace u = false)
        ⟨startFrom daHeight, tip⟩ u → AtTip u e → e.outOfPlace u = true →
        u.step e = some v → Run World.step AtTip v w →
        w.queue.mode.concurrency ≤ w.queue.completed.size) := by
  have hclean : ∀ w, Run World.step (fun u e => AtTip u e ∧ e.outOfPlace u = false)
      ⟨startFrom daHeight, tip⟩ w → InPlace w.queue := by
    intro w run
    apply run.invariant (motive := fun u => InPlace u.queue) (startFrom_inPlace daHeight)
    intro u v e h hadm hst
    obtain ⟨ha, hno⟩ := hadm
    rcases world_step_cases ha hst with hq | ⟨q, rfl, hadm, hstep⟩
    · exact hq ▸ h
    · exact h.step hadm hstep hno
  refine ⟨?_, ?_⟩
  · intro w run here
    have h := hclean w run
    exact (h.gapless (by simp [State.Running, here])).pending_ne_nil here (h.full here)
  · intro u v w e hu ha hj hst run
    have hv : Sound BlockOrNone v.queue ∧ Doomed v.queue := by
      cases e with
      | grow tip => simp [WorldEvent.outOfPlace] at hj
      | queue q =>
        obtain ⟨t, ht, rfl⟩ := Option.map_eq_some_iff.mp hst
        exact ⟨(hclean u hu).sound.step blockOrNone_faithful
          (Admitted.mono (fun _ _ => NodeAnswers.blockOrNone) ha) (step_cases ht),
          joinsOutOfPlace_doomed (hclean u hu) (step_cases ht) hj⟩
    have hall : Sound BlockOrNone w.queue ∧ Doomed w.queue := by
      apply run.invariant (motive := fun x => Sound BlockOrNone x.queue ∧ Doomed x.queue) hv
      intro x y e h ha hst
      obtain ⟨hs, hd⟩ := h
      rcases world_step_cases ha hst with hq | ⟨q, rfl, hadm, hstep⟩
      · exact hq ▸ ⟨hs, hd⟩
      · exact ⟨hs.step blockOrNone_faithful hadm hstep, hd.step hs hstep⟩
    exact hall.2.full

/-- The chain ends at height 0. -/
def pollAboveGenesis : List Event :=
  List.flatten [advances 9,
    [.answer 0 (.ok (some (bareBlock 0))), .answer 1 (.ok none)],
    [.join 0], advances 4, [.join 0], advances 2]

theorem request_in_flight_at_tip :
    ∃ w, Run World.step (fun u e => AtTip u e ∧ e.outOfPlace u = false) ⟨startFrom 0, 0⟩ w ∧
      w.queue.point = .join ∧ w.queue.nextToEmit = 1 ∧ w.queue.mode = .poll ∧
      w.queue.pending ≠ [] := by
  obtain ⟨w, run, here, hn, hm⟩ :
      ∃ w, Run World.step (fun u e => AtTip u e ∧ e.outOfPlace u = false)
        ⟨startFrom 0, 0⟩ w ∧ w.queue.point = .join ∧ w.queue.nextToEmit = 1 ∧
        w.queue.mode = .poll :=
    Run.exists_of_drive (pollAboveGenesis.map .queue) (by decide +kernel)
  exact ⟨w, run, here, hn, hm, (request_in_flight_unless_out_of_place 0 0).1 w run here⟩

/-- A node whose tip stays at 5. The two `None`s of heights 6 and 7 are joined
first, the blocks 0 to 5 after them, and block 0 once more after the rewind. -/
def stuckAtFive : List Event :=
  List.flatten [advances 9,
    (List.range 6).map (fun h => .answer h (.ok (some (bareBlock h)))),
    [.answer 6 (.ok none), .answer 7 (.ok none)],
    [.join 7], advances 2, [.join 6], advances 1,
    (List.replicate 6 (Event.join 0 :: advances 3)).flatten,
    advances 1, [.answer 0 (.ok (some (bareBlock 0))), .join 0], advances 2]

theorem stuck_behind_tip :
    ¬ ∀ daHeight tip w, Run World.step AtTip ⟨startFrom daHeight, tip⟩ w →
      w.queue.point = .join → w.queue.pending ≠ [] := by
  intro hall
  obtain ⟨w, run, here, hp⟩ :
      ∃ w, Run World.step AtTip ⟨startFrom 0, 5⟩ w ∧ w.queue.point = .join ∧
        w.queue.pending = [] :=
    Run.exists_of_drive (stuckAtFive.map .queue) (by decide +kernel)
  exact hall 0 5 w run here hp

end Watchtower.Downloader.Queue
