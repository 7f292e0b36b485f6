import Watchtower.Downloader.L1
import Watchtower.Lib.Run
import Watchtower.Lib.SortedMap

namespace Watchtower.Downloader
open Lib

inductive RpcError where
  | errorResp (code : Int) (message : String)
  | transport (message : String)
  deriving DecidableEq

inductive GetBlockError where
  | rateLimited
  | other (err : RpcError)
  deriving DecidableEq

/-- What a request for one height comes back with. -/
abbrev Answer := Except GetBlockError (Option Block)

/-- What the node returns to `get_block_by_number(..).full()`. -/
abbrev Response := Except RpcError (Option Block)

def GetBlockError.ofRpc : RpcError → GetBlockError
  | .errorResp code message =>
    if code = 429 then .rateLimited else .other (.errorResp code message)
  | .transport message => .other (.transport message)

/-- `get_block` of the JSON-RPC provider. -/
def getBlock (response : Response) : Answer :=
  response.mapError GetBlockError.ofRpc

theorem getBlock_eq_ok {response : Response} {found : Option Block} :
    getBlock response = .ok found ↔ response = .ok found := by
  cases response <;> simp [getBlock, Except.mapError]

namespace Queue

inductive Mode where
  | batch
  | poll
  deriving DecidableEq

def Mode.concurrency : Mode → Nat
  | .batch => 8
  | .poll => 1

/-- A task of the `JoinSet`. It took its own copy of the height when it was
spawned; `output` is filled in once the node has answered. -/
structure Task where
  height : Nat
  output : Option Answer
  deriving DecidableEq

/-- Why `stream_inner` returned. -/
inductive Failure where
  | rpc (err : RpcError)
  | receiverDropped
  deriving DecidableEq

/-- Where `stream_inner` stands: at the test of the refill loop, at
`join_next`, or at the test of the emit loop. -/
inductive Point where
  | refill
  | join
  | emit
  | returned (why : Failure)
  deriving DecidableEq

/-- The queue with the locals of `stream_inner`. Heights are u64 in the
source, which adds without a check; `sent` is what went into the channel. -/
structure State where
  nextDaHeight : Nat
  pending : List Task
  completed : SortedMap Nat Block
  nextToEmit : Nat
  mode : Mode
  point : Point
  sent : List Block
  deriving DecidableEq

/-- `start_from`, on entry to `stream_inner`. -/
def startFrom (daHeight : Nat) : State where
  nextDaHeight := daHeight
  pending := []
  completed := .empty
  nextToEmit := daHeight
  mode := .batch
  point := .refill
  sent := []

/-- The heights in flight, finished tasks that were not joined yet included. -/
def State.heights (s : State) : List Nat := s.pending.map Task.height

def State.spawn (s : State) : State :=
  { s with
    pending := s.pending ++ [⟨s.nextDaHeight, none⟩]
    nextDaHeight := s.nextDaHeight + 1 }

/-- The test of the refill loop and, if it holds, the loop's body. -/
def State.refill (s : State) : State :=
  if s.pending.length + s.completed.size < s.mode.concurrency then s.spawn
  else { s with point := .join }

/-- The `match` on a joined answer. The sleeps change nothing here. -/
def State.joined (s : State) : Answer → State
  | .ok (some block) =>
    { s with completed := s.completed.insert block.number block, point := .emit }
  | .ok none =>
    match s.mode with
    | .batch => { s with mode := .poll, point := .emit }
    -- the `continue` skips the emit loop
    | .poll => { s with nextDaHeight := s.nextToEmit, point := .refill }
  | .error .rateLimited => { s with point := .emit }
  | .error (.other err) => { s with point := .returned (.rpc err) }

/-- The completed block the emit loop may send now. -/
def State.head? (s : State) : Option Block :=
  match s.completed.first? with
  | some (k, block) => if k = s.nextToEmit then some block else none
  | none => none

def State.sendHead (s : State) (block : Block) : State :=
  { s with
    completed := s.completed.erase s.nextToEmit
    nextToEmit := s.nextToEmit + 1
    sent := s.sent ++ [block] }

/-- What moves the system: the task at a place of the set is answered or
joined, `stream_inner` takes its next test, or a send finds the receiver gone. -/
inductive Event where
  | answer (i : Nat) (response : Response)
  | join (i : Nat)
  | advance
  | hangUp
  deriving DecidableEq

def step (s : State) : Event → Option State
  | .answer i response =>
    match s.pending[i]? with
    | some ⟨h, none⟩ => some { s with pending := s.pending.set i ⟨h, some (getBlock response)⟩ }
    | _ => none
  | .join i =>
    match s.point, s.pending[i]? with
    | .join, some ⟨_, some out⟩ =>
      some ({ s with pending := s.pending.eraseIdx i }.joined out)
    | _, _ => none
  | .advance =>
    match s.point with
    | .refill => some s.refill
    -- `join_next` on an empty set gives `None` at once
    | .join => if s.pending = [] then some { s with point := .emit } else none
    | .emit =>
      match s.head? with
      | some block => some (s.sendHead block)
      | none => some { s with point := .refill }
    | .returned _ => none
  | .hangUp =>
    match s.point, s.head? with
    -- the block has left the buffer when its send fails
    | .emit, some _ =>
      some { s with
        completed := s.completed.erase s.nextToEmit
        point := .returned .receiverDropped }
    | _, _ => none

/-- Everything one step can do, with the condition under which it does it. -/
inductive Stepped (s : State) : Event → State → Prop where
  | spawn (here : s.point = .refill)
      (room : s.pending.length + s.completed.size < s.mode.concurrency) :
      Stepped s .advance s.spawn
  | full (here : s.point = .refill)
      (room : s.mode.concurrency ≤ s.pending.length + s.completed.size) :
      Stepped s .advance { s with point := .join }
  | idle (here : s.point = .join) (none : s.pending = []) :
      Stepped s .advance { s with point := .emit }
  | answer (front back : List Task) (h : Nat) (response : Response)
      (split : s.pending = front ++ ⟨h, none⟩ :: back) :
      Stepped s (.answer front.length response)
        { s with pending := front ++ ⟨h, some (getBlock response)⟩ :: back }
  | join (front back : List Task) (h : Nat) (out : Answer) (here : s.point = .join)
      (split : s.pending = front ++ ⟨h, some out⟩ :: back) :
      Stepped s (.join front.length) ({ s with pending := front ++ back }.joined out)
  | send (block : Block) (here : s.point = .emit)
      (head : s.completed.first? = some (s.nextToEmit, block)) :
      Stepped s .advance (s.sendHead block)
  | done (here : s.point = .emit) (head : s.nextToEmit ∉ s.completed.keys ∨
      ∃ k ∈ s.completed.keys, k < s.nextToEmit) :
      Stepped s .advance { s with point := .refill }
  | dropped (block : Block) (here : s.point = .emit)
      (head : s.completed.first? = some (s.nextToEmit, block)) :
      Stepped s .hangUp { s with
        completed := s.completed.erase s.nextToEmit
        point := .returned .receiverDropped }

theorem head?_eq_some {s : State} {block : Block} :
    s.head? = some block ↔ s.completed.first? = some (s.nextToEmit, block) := by
  unfold State.head?
  cases hf : s.completed.first? with
  | none => simp
  | some e =>
    obtain ⟨k, b⟩ := e
    by_cases hk : k = s.nextToEmit <;> simp [hk]

/-- The emit loop stops when its next block is missing, or is hidden behind a
smaller key. -/
theorem head?_eq_none {s : State} (h : s.head? = none) :
    s.nextToEmit ∉ s.completed.keys ∨ ∃ k ∈ s.completed.keys, k < s.nextToEmit := by
  by_cases hm : s.nextToEmit ∈ s.completed.keys
  · right
    by_contra hno
    push Not at hno
    obtain ⟨block, hb⟩ := SortedMap.mem_keys.mp hm
    have := head?_eq_some.mpr (SortedMap.first?_eq_some.mpr ⟨hb, hno⟩)
    rw [h] at this
    cases this
  · exact Or.inl hm

theorem split_at {α : Type} {l : List α} {i : Nat} {x : α} (h : l[i]? = some x) :
    ∃ front back, l = front ++ x :: back ∧ front.length = i := by
  obtain ⟨hi, hx⟩ := List.getElem?_eq_some_iff.mp h
  refine ⟨l.take i, l.drop (i + 1), ?_, by simp; omega⟩
  rw [← hx, List.getElem_cons_drop, List.take_append_drop]

theorem step_cases {s t : State} {e : Event} (h : step s e = some t) : Stepped s e t := by
  cases e with
  | answer i response =>
    simp only [step] at h
    split at h
    · rename_i hgt hi
      obtain ⟨front, back, hs, rfl⟩ := split_at hi
      cases h
      rw [hs, List.set_append_right _ _ (Nat.le_refl _)]
      simpa using Stepped.answer front back hgt response hs
    · contradiction
  | join i =>
    simp only [step] at h
    split at h
    · rename_i hgt out here hi
      obtain ⟨front, back, hs, rfl⟩ := split_at hi
      cases h
      rw [hs, List.eraseIdx_append_of_length_le (Nat.le_refl _)]
      simpa using Stepped.join front back hgt out here hs
    · contradiction
  | advance =>
    simp only [step] at h
    split at h
    · rename_i here
      cases h
      unfold State.refill
      split
      · rename_i room
        exact .spawn here room
      · rename_i room
        exact .full here (Nat.le_of_not_lt room)
    · rename_i here
      split at h
      · rename_i hp
        cases h
        exact .idle here hp
      · contradiction
    · rename_i here
      split at h
      · rename_i block hh
        cases h
        exact .send block here (head?_eq_some.mp hh)
      · rename_i hh
        cases h
        exact .done here (head?_eq_none hh)
    · contradiction
  | hangUp =>
    simp only [step] at h
    split at h
    · rename_i block here hh
      cases h
      exact .dropped block here (head?_eq_some.mp hh)
    · contradiction

/-- `stream_inner` has not returned. -/
def State.Running (s : State) : Prop := ∀ why, s.point ≠ .returned why

/-- A queue that has returned takes nothing but late answers. -/
theorem Stepped.running {s t : State} {e : Event} (h : Stepped s e t) (ht : t.Running) :
    s.Running := by
  intro why hw
  cases h with
  | answer front back a response split => exact ht why hw
  | spawn here | full here | idle here | join _ _ _ _ here | send _ here | done here
  | dropped _ here => rw [here] at hw; cases hw

/-- The provider gives only the answers `gave` allows for the height asked. -/
def Admitted (gave : Nat → Answer → Prop) (s : State) : Event → Prop
  | .answer i response => ∀ task ∈ s.pending[i]?, gave task.height (getBlock response)
  | _ => True

instance (gave : Nat → Answer → Prop) [∀ h out, Decidable (gave h out)] (s : State) :
    (e : Event) → Decidable (Admitted gave s e)
  | .answer i response => inferInstanceAs (Decidable
      (∀ task ∈ s.pending[i]?, gave task.height (getBlock response)))
  | .join _ | .advance | .hangUp => inferInstanceAs (Decidable True)

end Queue
end Watchtower.Downloader
