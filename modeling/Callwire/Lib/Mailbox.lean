import Mathlib.Data.List.Basic

/-!
# A mailbox with one consumer

A single-threaded program puts things into a mailbox, and one consumer takes them out: it looks, and
if there is nothing it waits for a promise that the next put resolves. Its continuation runs later,
so a consumer that has been woken looks again (`poll`), and more may have been put in before it
does.

What is in the mailbox is any type with a function `take` that says what the consumer gets, if it
gets anything. If every put leaves something to get, no wakeup is lost: a consumer that waits has
nothing to get, and one that was woken gets something (`Alert`).
-/

namespace Lib

inductive Consumer where
  | idle
  /-- its promise is pending -/
  | waiting
  /-- its promise is resolved -/
  | woken
  deriving DecidableEq, Repr

/-- The promise of a waiting consumer is resolved. -/
def Consumer.wake : Consumer → Consumer
  | .waiting => .woken
  | consumer => consumer

/-- A mailbox with the record of what the consumer has got. -/
structure Mailbox (D Y : Type) where
  data : D
  consumer : Consumer
  yields : List Y

namespace Mailbox

variable {D Y : Type}

def new (data : D) : Mailbox D Y where
  data := data
  consumer := .idle
  yields := []

def put (f : D → D) (m : Mailbox D Y) : Mailbox D Y :=
  { m with data := f m.data, consumer := m.consumer.wake }

variable (take : D → Option (Y × D))

def poll (m : Mailbox D Y) : Mailbox D Y :=
  match take m.data with
  | some (y, data) => { data, consumer := .idle, yields := m.yields ++ [y] }
  | none => { m with consumer := .waiting }

/-- No wakeup is lost. -/
structure Alert (m : Mailbox D Y) : Prop where
  waiting : m.consumer = .waiting → take m.data = none
  woken : m.consumer = .woken → (take m.data).isSome = true

variable {take} {m : Mailbox D Y} {f : D → D}

/-- What taking leaves alone, a poll leaves alone. -/
theorem poll_data {α : Type} {g : D → α} (h : ∀ d x, take d = some x → g x.2 = g d) :
    g (m.poll take).data = g m.data := by
  unfold poll
  split
  · exact h m.data _ ‹_›
  · rfl

theorem alert_new (data : D) : (new data : Mailbox D Y).Alert take := ⟨nofun, nofun⟩

theorem Alert.put (hf : ∀ d, (take (f d)).isSome = true) : (m.put f).Alert take := by
  refine ⟨fun hc => ?_, fun _ => hf _⟩
  unfold Mailbox.put Consumer.wake at hc
  dsimp only at hc
  split at hc
  · cases hc
  · rename_i hne
    exact absurd hc hne

theorem Alert.poll : (m.poll take).Alert take := by
  unfold Mailbox.poll
  split
  · exact ⟨nofun, nofun⟩
  · exact ⟨fun _ => ‹_›, nofun⟩

end Mailbox

end Lib
