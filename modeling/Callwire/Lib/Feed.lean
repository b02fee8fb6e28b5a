import Callwire.Lib.ArrayUpdate

/-!
# A stream and its reader

A feed is what has been written to a stream so far: chunks, and once it is over what every later
read gives. `Feed.nth` is the result of each read. A reader with a queue follows the feed
(`Feed.Follows`) if the chunks it has not read are in the queue: then it has read what the feed
says, in order (`Follows.getElem?_eq`), and the queue holds the next result (`Follows.nth_length`).
-/

namespace Lib

open List

structure Feed (V Y : Type) where
  chunks : List V
  /-- what every read after the chunks gives, if the stream is over -/
  final : Option Y

namespace Feed

variable {V Y : Type} (value : V → Y)

/-- The result of read `n`, if there is one yet. -/
def nth (f : Feed V Y) (n : Nat) : Option Y := (f.chunks[n]?.map value).or f.final

/-- The reader has got `reads`, and `queue` is left of the chunks. -/
def Follows (f : Feed V Y) (queue : List V) (reads : List Y) : Prop :=
  ∃ vs ys, f.chunks = vs ++ queue ∧ reads = vs.map value ++ ys ∧
    ∀ y ∈ ys, queue = [] ∧ f.final = some y

variable {value} {f : Feed V Y} {queue : List V} {reads : List Y}

theorem follows_nil {final : Option Y} : Follows value ⟨[], final⟩ [] [] :=
  ⟨[], [], rfl, rfl, forall_mem_nil _⟩

namespace Follows

theorem write (h : Follows value f queue reads) (hfinal : f.final = none) (v : V) :
    Follows value { f with chunks := f.chunks ++ [v] } (queue ++ [v]) reads := by
  obtain ⟨vs, ys, hchunks, hreads, hys⟩ := h
  refine ⟨vs, ys, ?_, hreads, fun y hy => ?_⟩
  · rw [hchunks, append_assoc]
  · rw [(hys y hy).2] at hfinal
    cases hfinal

theorem finish (h : Follows value f queue reads) (hfinal : f.final = none) (final : Option Y) :
    Follows value { f with final } queue reads := by
  obtain ⟨vs, ys, hchunks, hreads, hys⟩ := h
  refine ⟨vs, ys, hchunks, hreads, fun y hy => ?_⟩
  rw [(hys y hy).2] at hfinal
  cases hfinal

theorem read_chunk {v : V} (h : Follows value f (v :: queue) reads) :
    Follows value f queue (reads ++ [value v]) := by
  obtain ⟨vs, ys, hchunks, hreads, hys⟩ := h
  cases ys with
  | nil =>
    refine ⟨vs ++ [v], [], ?_, ?_, forall_mem_nil _⟩
    · rw [hchunks, append_assoc]
      rfl
    · rw [hreads, map_append, append_nil, append_nil]
      rfl
  | cons y ys => cases (hys y (mem_cons_self ..)).1

theorem read_final {y : Y} (h : Follows value f [] reads) (hfinal : f.final = some y) :
    Follows value f [] (reads ++ [y]) := by
  obtain ⟨vs, ys, hchunks, hreads, hys⟩ := h
  refine ⟨vs, ys ++ [y], hchunks, ?_, forall_concat hys ⟨rfl, hfinal⟩⟩
  rw [hreads, append_assoc]

/-- **The reads are those of the feed.** -/
theorem getElem?_eq (h : Follows value f queue reads) {n : Nat} (hn : n < reads.length) :
    reads[n]? = f.nth value n := by
  obtain ⟨vs, ys, hchunks, hreads, hys⟩ := h
  rw [nth, hchunks, hreads]
  by_cases hlt : n < vs.length
  · rw [getElem?_append_left (by rwa [length_map]), getElem?_append_left hlt,
      getElem?_map, getElem?_eq_getElem hlt]
    rfl
  · have hge : vs.length ≤ n := Nat.le_of_not_lt hlt
    rw [hreads, length_append, length_map] at hn
    have hlt' : n - vs.length < ys.length := by omega
    obtain ⟨hqueue, hfinal⟩ := hys _ (getElem_mem hlt')
    rw [getElem?_append_right (by rwa [length_map]), length_map,
      getElem?_eq_getElem hlt', hqueue, append_nil, getElem?_eq_none hge, hfinal]
    rfl

/-- **The queue holds what the next read gives.** -/
theorem nth_length (h : Follows value f queue reads) :
    f.nth value reads.length = (queue.head?.map value).or f.final := by
  obtain ⟨vs, ys, hchunks, hreads, hys⟩ := h
  rw [nth, hchunks, hreads, length_append, length_map]
  cases queue with
  | nil => rw [append_nil, getElem?_eq_none (Nat.le_add_right ..)]; rfl
  | cons v queue =>
    cases ys with
    | nil => rw [length_nil, Nat.add_zero, getElem?_append_right (Nat.le_refl _),
        Nat.sub_self]; rfl
    | cons y ys => cases (hys y (mem_cons_self ..)).1

end Follows

end Feed

end Lib
