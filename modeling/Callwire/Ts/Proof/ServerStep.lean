import Callwire.Lib.ArrayUpdate
import Callwire.Ts.Server

/-!
# The steps of the TypeScript server

What every step leaves alone. The ids of the requests of a connection are those of the request
frames that the read loop has got, in order (`step_ids`); a request keeps its id and its handler,
and of its input it only takes (`Request.step_input`).
-/

namespace Callwire.Ts.Server

open Lib List

variable {J : Js}

/-! ## One request -/

namespace Request

variable {r : Request J} {destroyed : Bool}

/-- What `_runHandler` leaves alone. -/
structure Keeps (r r' : Request J) : Prop where
  id : r'.id = r.id
  handler : r'.handler = r.handler
  input : r'.input = r.input

theorem write_keeps {msg : WireMessage J} {pc : Pc J} : r.Keeps (r.write destroyed msg pc).1 := by
  unfold write
  split <;> exact ⟨rfl, rfl, rfl⟩

theorem catchError_keeps {err : J.Val} : r.Keeps (r.catchError destroyed err).1 := by
  unfold catchError
  split
  · exact ⟨rfl, rfl, rfl⟩
  · split
    · exact ⟨rfl, rfl, rfl⟩
    · split
      · exact write_keeps
      · exact ⟨rfl, rfl, rfl⟩

theorem respond_keeps {result : J.Val} : r.Keeps (r.respond destroyed result).1 := by
  unfold respond
  split
  · exact write_keeps
  · exact catchError_keeps

theorem chunk_keeps {v : J.Val} : r.Keeps (r.chunk destroyed v).1 := by
  unfold chunk
  split
  · exact ⟨rfl, rfl, rfl⟩
  · split
    · exact write_keeps
    · exact ⟨rfl, rfl, rfl⟩

/-- **A piece of a request.** -/
theorem step_input {l : RequestLabel J} {x : Request J × List (WireMessage J)}
    (hs : r.step destroyed l = some x) :
    r.Keeps x.1 ∨ x.1 = { r with input := r.input.poll InputData.take } := by
  cases l with
  | returned result =>
    rw [step] at hs
    split at hs
    · split at hs <;> cases hs
      · exact .inl ⟨rfl, rfl, rfl⟩
      · exact .inl respond_keeps
    · cases hs
      exact .inl respond_keeps
    · cases hs
      exact .inl ⟨rfl, rfl, rfl⟩
    · cases hs
  | threw err =>
    rw [step] at hs
    split at hs <;> cases hs <;> exact .inl catchError_keeps
  | yielded v =>
    rw [step] at hs
    split at hs <;> cases hs
    have h : Keeps { r with yielded := r.yielded ++ [v] } (chunk destroyed _ v).1 := chunk_keeps
    exact .inl { h with }
  | finished =>
    rw [step] at hs
    split at hs <;> cases hs
    exact .inl write_keeps
  | closed failed =>
    simp only [step] at hs
    split at hs <;> cases hs
    · exact .inl catchError_keeps
    · exact .inl catchError_keeps
    · exact .inl ⟨rfl, rfl, rfl⟩
  | next =>
    rw [step] at hs
    split at hs <;> cases hs <;> exact .inr rfl
  | resume =>
    rw [step] at hs
    split at hs <;> cases hs
    exact .inr rfl

theorem step_id {l : RequestLabel J} {x : Request J × List (WireMessage J)}
    (hs : r.step destroyed l = some x) : x.1.id = r.id := by
  rcases step_input hs with h | h
  · exact h.id
  · rw [h]

end Request

/-! ## The connection -/

/-- The ids that the read loop gets requests for. -/
def Label.asks : Label J → List Nat
  | .frame msg => if msg.type = "request" then [msg.id] else []
  | _ => []

variable {msg : WireMessage J}

theorem Label.asks_frame (h : msg.type = "request") :
    (Label.frame msg).asks = [msg.id] := if_pos h

theorem Label.asks_frame_of_ne (h : msg.type ≠ "request") :
    (Label.frame msg).asks = [] := if_neg h

theorem IsStreamFrame.not_request (h : IsStreamFrame msg) : msg.type ≠ "request" := by
  rcases h with h | h | h <;> rw [h] <;> decide

namespace Connection

variable {c : Connection J} {msg : WireMessage J}

theorem notFound_ok (msg : WireMessage J) :
    ∃ frame, notFound msg = .ok frame ∧ frame.type = "error" ∧ frame.id = msg.id := by
  rw [notFound, packError, encoding, J.refuse_str]
  exact ⟨_, rfl, rfl, rfl⟩

theorem modifyInput_ids {i : Nat} {f : Input J.Val → Input J.Val} :
    (c.modifyInput i f).requests.map Request.id = c.requests.map Request.id :=
  map_modify_of_eq _ _ _ _ fun _ => rfl

theorem handleStream_ids :
    (c.handleStream msg).requests.map Request.id = c.requests.map Request.id := by
  unfold handleStream
  split
  · rfl
  · split <;> exact modifyInput_ids

theorem handleRequest_ids :
    (c.handleRequest msg).requests.map Request.id = c.requests.map Request.id ++ [msg.id] := by
  obtain ⟨frame, hframe, -⟩ := notFound_ok msg
  unfold handleRequest
  rw [hframe]
  split
  · simp only [map_append, map_cons, map_nil, Request.write_keeps.id]
    rfl
  · exact map_append ..
  · exact map_append ..

theorem handleFrame_ids : (c.handleFrame msg).requests.map Request.id =
    c.requests.map Request.id ++ (Label.frame msg).asks := by
  unfold handleFrame
  split
  · rename_i h
    rw [Label.asks_frame_of_ne h.not_request, append_nil]
    exact handleStream_ids
  · split
    · rename_i h
      rw [Label.asks_frame h]
      exact handleRequest_ids
    · rename_i h
      rw [Label.asks_frame_of_ne h, append_nil]

theorem handleFrame_destroyed : (c.handleFrame msg).destroyed = c.destroyed := by
  obtain ⟨frame, hframe, -⟩ := notFound_ok msg
  unfold handleFrame handleStream handleRequest
  rw [hframe]
  split
  · split
    · rfl
    · split <;> rfl
  · split
    · split <;> rfl
    · rfl

theorem disconnect_ids : c.disconnect.requests.map Request.id = c.requests.map Request.id := by
  refine ext_getElem? fun i => ?_
  simp only [disconnect, getElem?_map, getElem?_mapIdx, Option.map_map]
  congr 1
  funext r
  show (c.failInput i r).id = r.id
  unfold failInput
  split <;> rfl

end Connection

variable {c c' : Connection J} {l : Label J}

/-- **The requests are those asked for.** -/
theorem step_ids (hs : step c l = some c') :
    c'.requests.map Request.id = c.requests.map Request.id ++ l.asks := by
  cases l with
  | register name handler =>
    cases hs
    exact (append_nil _).symm
  | frame msg =>
    rw [step] at hs
    split at hs <;> cases hs
    exact Connection.handleFrame_ids
  | disconnect =>
    rw [step] at hs
    split at hs <;> cases hs
    exact Connection.disconnect_ids.trans (append_nil _).symm
  | destroy =>
    cases hs
    exact (append_nil _).symm
  | request i l =>
    obtain ⟨r, hr, hs⟩ := Option.bind_eq_some_iff.1 hs
    obtain ⟨x, hx, hs⟩ := Option.bind_eq_some_iff.1 hs
    cases hs
    exact (map_set_of_eq _ hr (Request.step_id hx)).trans (append_nil _).symm

theorem fresh_of_nodup (hs : step c (.frame msg) = some c')
    (hn : (c'.requests.map Request.id).Nodup) (ht : msg.type = "request") :
    ∀ r ∈ c.requests, r.id ≠ msg.id := by
  rw [step_ids hs, Label.asks_frame ht, nodup_append] at hn
  intro r hr
  exact hn.2.2 r.id (mem_map_of_mem hr) msg.id (mem_singleton_self _)

/-! ## A table of handlers -/

/-- A function and a client stream. -/
def exports : AList fun _ : String => Handler :=
  ((∅ : AList fun _ : String => Handler).insert "f" .fn).insert "s" .clientStream

end Callwire.Ts.Server
