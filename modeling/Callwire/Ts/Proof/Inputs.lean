import Mathlib.Data.List.Induction
import Callwire.Lib.Feed
import Callwire.Ts.Proof.ServerStep

/-!
# The input of a streaming call

`feed k ls` is what the frames and the end of the connection in `ls` say about the input of call
`k`: the results of its chunks, from its request to its first `stream_close` or `stream_end`, and
then `done`, or `Connection closed` if the connection ended first. The input of every streaming call
follows its feed (`Feeding`): `next` gives the results of the feed, in order, and waits only while
there is none (`inputs_faithful`).
-/

namespace Callwire.Ts.Server

open Lib List InputData Option

/-! ## The input of one call -/

section
variable {V : Type}

/-- What `next` finds when the queue is empty. -/
def InputData.rest (d : InputData V) : Option (Yield V) :=
  match d.erroredWith with
  | some message => some (.threw message)
  | none => if d.ended then some .done else none

variable {d : InputData V}

theorem InputData.take_cons {v : V} {queue : List V} (h : d.queue = v :: queue) :
    d.take = some (.value v, { d with queue }) := by
  rw [take, h]

theorem InputData.take_nil (h : d.queue = []) : d.take = d.rest.map fun y => (y, d) := by
  rw [take, h, rest]
  cases d.erroredWith with
  | some message => rfl
  | none => cases d.ended <;> rfl

theorem InputData.take_isSome :
    d.take.isSome = ((d.queue.head?.map Yield.value).or d.rest).isSome := by
  cases hq : d.queue with
  | nil => rw [take_nil hq, isSome_map]; rfl
  | cons v queue => rw [take_cons hq]; rfl

theorem InputData.take_rest {x : Yield V × InputData V} (h : d.take = some x) :
    x.2.rest = d.rest := by
  cases hq : d.queue with
  | nil =>
    rw [take_nil hq] at h
    obtain ⟨y, -, rfl⟩ := map_eq_some_iff.1 h
    rfl
  | cons v queue =>
    rw [take_cons hq] at h
    cases h
    rfl

theorem InputData.rest_ended (h : d.rest = none) :
    rest { d with ended := true } = some .done := by
  unfold rest at h ⊢
  cases herr : d.erroredWith with
  | some message =>
    rw [herr] at h
    cases h
  | none => rfl

theorem InputData.rest_ended_isSome : (rest { d with ended := true }).isSome = true := by
  unfold rest
  cases d.erroredWith <;> rfl

abbrev InputFeed (V : Type) := Feed V (Yield V)

/-- An input that follows its feed. -/
structure Fed (f : InputFeed V) (input : Input V) : Prop where
  follows : f.Follows .value input.data.queue input.yields
  rest : input.data.rest = f.final
  alert : input.Alert take

namespace Fed

variable {f : InputFeed V} {input : Input V}

theorem new : Fed ⟨[], none⟩ (Input.new : Input V) := ⟨Feed.follows_nil, rfl, Mailbox.alert_new _⟩

section
variable (h : Fed f input)
include h

theorem push (hfinal : f.final = none) (v : V) :
    Fed { f with chunks := f.chunks ++ [v] } (input.push v) := by
  refine ⟨h.follows.write hfinal v, h.rest, .put fun d => ?_⟩
  rw [InputData.take_isSome, head?_append]
  cases d.queue <;> rfl

theorem finish (hfinal : f.final = none) : Fed { f with final := some .done } input.finish := by
  have hrest : input.data.rest = none := h.rest.trans hfinal
  refine ⟨h.follows.finish hfinal _, rest_ended hrest, .put fun d => ?_⟩
  rw [InputData.take_isSome]
  cases d.queue with
  | cons v queue => rfl
  | nil => exact rest_ended_isSome

theorem fail (hfinal : f.final = none) (message : String) :
    Fed { f with final := some (.threw message) } (input.fail message) := by
  refine ⟨h.follows.finish hfinal _, rfl, .put fun d => ?_⟩
  rw [InputData.take_isSome]
  cases d.queue <;> rfl

theorem poll : Fed f (input.poll take) := by
  refine ⟨?_, ?_, .poll⟩
  · have hfollows := h.follows
    unfold Mailbox.poll
    cases hq : input.data.queue with
    | cons v queue =>
      rw [hq] at hfollows
      rw [take_cons hq]
      exact hfollows.read_chunk
    | nil =>
      rw [hq] at hfollows
      rw [take_nil hq]
      cases hrest : input.data.rest with
      | none =>
        show f.Follows .value input.data.queue input.yields
        rw [hq]
        exact hfollows
      | some y =>
        show f.Follows .value input.data.queue (input.yields ++ [y])
        rw [hq]
        exact hfollows.read_final (h.rest.symm.trans hrest)
  · rw [← h.rest]
    exact Mailbox.poll_data fun d x hx => take_rest hx

theorem poll_yields : (input.poll take).yields =
    input.yields ++ (f.nth .value input.yields.length).toList := by
  rw [h.follows.nth_length, ← h.rest]
  unfold Mailbox.poll
  cases hq : input.data.queue with
  | cons v queue =>
    rw [take_cons hq]
    rfl
  | nil =>
    rw [take_nil hq]
    cases input.data.rest with
    | none => exact (append_nil _).symm
    | some y => rfl

theorem take_isSome : input.data.take.isSome = (f.nth .value input.yields.length).isSome := by
  rw [InputData.take_isSome, h.follows.nth_length, h.rest]

end

end Fed

end

/-! ## What the frames say -/

section
variable {J : Js}

/-- What a frame with the id of the call says. -/
def receive (msg : WireMessage J) : Option (InputFeed J.Val) → Option (InputFeed J.Val)
  | none => if msg.type = "request" then some ⟨[], none⟩ else none
  | some ⟨chunks, none⟩ =>
    if msg.type = "stream_chunk" then some ⟨chunks ++ [msg.result], none⟩
    else if msg.type = "stream_close" ∨ msg.type = "stream_end" then some ⟨chunks, some .done⟩
    else some ⟨chunks, none⟩
  | some ⟨chunks, some final⟩ => some ⟨chunks, some final⟩

section
variable {msg : WireMessage J} {f : InputFeed J.Val}

theorem receive_over (h : f.final ≠ none) : receive msg (some f) = some f := by
  obtain ⟨chunks, _ | final⟩ := f
  · exact absurd rfl h
  · rfl

theorem receive_chunk (h : f.final = none) (ht : msg.type = "stream_chunk") :
    receive msg (some f) = some { f with chunks := f.chunks ++ [msg.result] } := by
  obtain ⟨chunks, _ | final⟩ := f
  · exact if_pos ht
  · cases h

theorem receive_end (h : f.final = none) (ht : msg.type ≠ "stream_chunk")
    (hstream : IsStreamFrame msg) :
    receive msg (some f) = some { f with final := some .done } := by
  obtain ⟨chunks, _ | final⟩ := f
  · exact (if_neg ht).trans (if_pos (hstream.resolve_left ht))
  · cases h

theorem receive_other (h : ¬ IsStreamFrame msg) : receive msg (some f) = some f := by
  rw [IsStreamFrame, not_or] at h
  obtain ⟨chunks, _ | final⟩ := f
  · exact (if_neg h.1).trans (if_neg h.2)
  · rfl

end

def drop (f : InputFeed J.Val) : InputFeed J.Val :=
  { f with final := f.final.or (some (.threw "Connection closed")) }

theorem drop_of_over {f : InputFeed J.Val} (h : f.final ≠ none) : drop f = f := by
  obtain ⟨chunks, _ | final⟩ := f
  · exact absurd rfl h
  · rfl

variable {k : Nat}

theorem drop_over {f : InputFeed J.Val} {i : Nat} :
    (∅ : AList fun _ : Nat => Nat).lookup k = some i ↔ (drop f).final = none := by
  obtain ⟨chunks, _ | final⟩ := f <;> exact ⟨nofun, nofun⟩

def feedStep (k : Nat) (f : Option (InputFeed J.Val)) : Label J → Option (InputFeed J.Val)
  | .frame msg => if msg.id = k then receive msg f else f
  | .disconnect => f.map drop
  | _ => f

/-- The input of call `k`, from the labels: `none` before its request. -/
def feed (k : Nat) (ls : List (Label J)) : Option (InputFeed J.Val) := ls.foldl (feedStep k) none

variable {ls : List (Label J)}

theorem feed_concat {l : Label J} : feed k (ls ++ [l]) = feedStep k (feed k ls) l := by
  rw [feed, foldl_append]
  rfl

variable {f : Option (InputFeed J.Val)} {msg : WireMessage J}

theorem feedStep_other (h : msg.id ≠ k) :
    feedStep k f (.frame msg) = f := if_neg h

theorem feedStep_self :
    feedStep msg.id f (.frame msg) = receive msg f := if_pos rfl

theorem feedStep_unrelated (hstream : ¬ IsStreamFrame msg) (ht : msg.type ≠ "request") :
    feedStep k f (.frame msg) = f := by
  by_cases hid : msg.id = k
  · rw [feedStep, if_pos hid]
    cases f with
    | none => exact if_neg ht
    | some f => exact receive_other hstream
  · exact feedStep_other hid

theorem feed_eq_none (h : k ∉ ls.flatMap Label.asks) : feed k ls = none := by
  induction ls using List.reverseRecOn with
  | nil => rfl
  | append_singleton ls l ih =>
    rw [flatMap_append, flatMap_singleton, mem_append, not_or] at h
    rw [feed_concat, ih h.1]
    cases l with
    | frame msg =>
      by_cases hid : msg.id = k
      · subst hid
        rw [feedStep_self]
        refine if_neg fun ht => h.2 ?_
        rw [Label.asks_frame ht]
        exact mem_singleton_self _
      · exact feedStep_other hid
    | _ => rfl

/-! ## The connection -/

/-- A request that has an input. -/
def Request.Streaming (r : Request J) : Prop :=
  r.handler = some .clientStream ∨ r.handler = some .bidi

theorem Request.step_poll {r : Request J} (h : r.Streaming) (destroyed : Bool) {l : RequestLabel J}
    (hl : l = .next ∧ r.input.consumer = .idle ∨ l = .resume ∧ r.input.consumer = .woken) :
    r.step destroyed l = some ({ r with input := r.input.poll take }, []) := by
  rcases hl with ⟨rfl, hidle⟩ | ⟨rfl, hwoken⟩
  · rcases h with h | h <;> simp only [step, h, hidle]
  · simp only [step, hwoken]

/-- Every input follows its feed, and those of the feeds that are not over are registered. -/
structure Feeding (feeds : Nat → Option (InputFeed J.Val)) (c : Connection J) : Prop where
  inputs : ∀ i r, c.requests[i]? = some r → r.Streaming → ∃ f, feeds r.id = some f ∧
    Fed f r.input ∧ (c.streamInputs.lookup r.id = some i ↔ f.final = none)
  registered : ∀ k i, c.streamInputs.lookup k = some i →
    ∃ r, c.requests[i]? = some r ∧ r.Streaming ∧ r.id = k

namespace Feeding

variable {feeds : Nat → Option (InputFeed J.Val)} {c c' : Connection J} {msg : WireMessage J}

section
variable (h : Feeding feeds c)
include h

theorem congr {feeds' : Nat → Option (InputFeed J.Val)} (hfeeds : ∀ k, feeds' k = feeds k) :
    Feeding feeds' c := by
  rw [show feeds' = feeds from funext hfeeds]
  exact h

theorem ignore (hlookup : c.streamInputs.lookup msg.id = none) :
    Feeding (fun k => feedStep k (feeds k) (.frame msg)) c := by
  refine ⟨fun i r hr hstreaming => ?_, h.registered⟩
  obtain ⟨f, hf, hfed, hopen⟩ := h.inputs i r hr hstreaming
  refine ⟨f, ?_, hfed, hopen⟩
  by_cases hid : r.id = msg.id
  · have hfinal : f.final ≠ none := fun hfinal => by
      rw [← hopen, hid, hlookup] at hfinal
      cases hfinal
    show feedStep r.id (feeds r.id) (.frame msg) = some f
    rw [hf, hid, feedStep_self]
    exact receive_over hfinal
  · exact (feedStep_other (Ne.symm hid)).trans hf

theorem update {i : Nat} {g : Input J.Val → Input J.Val} {u : InputFeed J.Val → InputFeed J.Val}
    (streamInputs : AList fun _ : Nat => Nat) (hlookup : c.streamInputs.lookup msg.id = some i)
    (hu : ∀ f, f.final = none → receive msg (some f) = some (u f))
    (hg : ∀ f input, Fed f input → f.final = none → Fed (u f) (g input))
    (hself : ∀ f, f.final = none → (streamInputs.lookup msg.id = some i ↔ (u f).final = none))
    (hother : ∀ k, k ≠ msg.id → streamInputs.lookup k = c.streamInputs.lookup k)
    (hsub : ∀ k j, streamInputs.lookup k = some j → c.streamInputs.lookup k = some j) :
    Feeding (fun k => feedStep k (feeds k) (.frame msg))
      { c.modifyInput i g with streamInputs } := by
  obtain ⟨r₀, hr₀, hstreaming₀, hid₀⟩ := h.registered msg.id i hlookup
  obtain ⟨f₀, hf₀, hfed₀, hopen₀⟩ := h.inputs i r₀ hr₀ hstreaming₀
  have hfinal₀ : f₀.final = none := hopen₀.1 (hid₀ ▸ hlookup)
  constructor
  · intro j r' hr' hstreaming
    simp only [Connection.modifyInput, getElem?_modify] at hr'
    obtain ⟨r, hr, he⟩ := map_eq_some_iff.1 hr'
    by_cases hij : i = j
    · subst hij
      obtain rfl : r₀ = r := mem_unique hr₀ hr
      rw [if_pos rfl] at he
      subst he
      refine ⟨u f₀, ?_, hg f₀ _ hfed₀ hfinal₀, ?_⟩
      · show feedStep r₀.id (feeds r₀.id) (.frame msg) = _
        rw [hf₀, hid₀, feedStep_self]
        exact hu f₀ hfinal₀
      · show streamInputs.lookup r₀.id = some i ↔ _
        rw [hid₀]
        exact hself f₀ hfinal₀
    · rw [if_neg hij] at he
      subst he
      obtain ⟨f, hf, hfed, hopen⟩ := h.inputs j r hr hstreaming
      -- request `i` is the one with the id of the frame
      have hne : r.id ≠ msg.id := by
        intro hid
        obtain rfl : f₀ = f := by
          rw [hid₀, ← hid, hf] at hf₀
          exact (some.inj hf₀).symm
        have := hopen.2 hfinal₀
        rw [hid, hlookup] at this
        exact hij (some.inj this)
      refine ⟨f, (feedStep_other hne.symm).trans hf, hfed, ?_⟩
      show streamInputs.lookup r.id = some j ↔ _
      rw [hother r.id hne]
      exact hopen
  · intro k j hj
    obtain ⟨r, hr, hstreaming, hid⟩ := h.registered k j (hsub k j hj)
    simp only [Connection.modifyInput, getElem?_modify, hr]
    split
    · exact ⟨_, rfl, hstreaming, hid⟩
    · exact ⟨r, rfl, hstreaming, hid⟩

theorem handleStream (hstream : IsStreamFrame msg) :
    Feeding (fun k => feedStep k (feeds k) (.frame msg)) (c.handleStream msg) := by
  unfold Connection.handleStream
  split
  · rename_i hlookup
    exact h.ignore hlookup
  · rename_i i hlookup
    split
    · rename_i ht
      exact h.update c.streamInputs hlookup (fun _ hfinal => receive_chunk hfinal ht)
        (fun _ _ hfed hfinal => hfed.push hfinal msg.result)
        (fun _ hfinal => ⟨fun _ => hfinal, fun _ => hlookup⟩) (fun _ _ => rfl) (fun _ _ => id)
    · rename_i ht
      refine h.update (c.streamInputs.erase msg.id) hlookup
        (fun _ hfinal => receive_end hfinal ht hstream) (fun _ _ hfed hfinal => hfed.finish hfinal)
        ?_ (fun k hk => AList.lookup_erase_ne hk) ?_
      · intro f _
        rw [AList.lookup_erase]
        exact ⟨nofun, nofun⟩
      · intro k j hj
        by_cases hk : k = msg.id
        · rw [hk, AList.lookup_erase] at hj
          cases hj
        · rwa [AList.lookup_erase_ne hk] at hj

theorem spawn {r : Request J} {wire : List (WireMessage J)} (hr : ¬ r.Streaming)
    (hnew : ∀ v ∈ c.requests, v.id ≠ msg.id) :
    Feeding (fun k => feedStep k (feeds k) (.frame msg))
      { c with requests := c.requests ++ [r], wire } := by
  constructor
  · intro i v hv hstreaming
    rcases concat_cases hv with hv | ⟨-, rfl⟩
    · obtain ⟨f, hf, hfed, hopen⟩ := h.inputs i v hv hstreaming
      exact ⟨f, (feedStep_other (hnew v (mem_of_getElem? hv)).symm).trans hf, hfed, hopen⟩
    · exact absurd hstreaming hr
  · intro k i hi
    obtain ⟨v, hv, hstreaming, hid⟩ := h.registered k i hi
    exact ⟨v, concat_of_some hv, hstreaming, hid⟩

theorem spawn_streaming {r : Request J} (hr : r.Streaming) (hinput : r.input = Input.new)
    (ht : msg.type = "request") (hid : r.id = msg.id) (hnew : ∀ v ∈ c.requests, v.id ≠ msg.id)
    (hnone : feeds msg.id = none) :
    Feeding (fun k => feedStep k (feeds k) (.frame msg))
      { c with
        requests := c.requests ++ [r]
        streamInputs := c.streamInputs.insert msg.id c.requests.length } := by
  constructor
  · intro i v hv hstreaming
    rcases concat_cases hv with hv | ⟨rfl, rfl⟩
    · have hne := hnew v (mem_of_getElem? hv)
      obtain ⟨f, hf, hfed, hopen⟩ := h.inputs i v hv hstreaming
      refine ⟨f, (feedStep_other hne.symm).trans hf, hfed, ?_⟩
      show (c.streamInputs.insert msg.id c.requests.length).lookup v.id = some i ↔ _
      rw [AList.lookup_insert_ne hne]
      exact hopen
    · refine ⟨⟨[], none⟩, ?_, hinput ▸ Fed.new, ?_⟩
      · show feedStep v.id (feeds v.id) (.frame msg) = _
        rw [hid, hnone, feedStep_self]
        exact if_pos ht
      · show (c.streamInputs.insert msg.id c.requests.length).lookup v.id = _ ↔ _
        rw [hid, AList.lookup_insert]
        exact ⟨fun _ => rfl, fun _ => rfl⟩
  · intro k i hi
    by_cases hk : k = msg.id
    · rw [hk, AList.lookup_insert] at hi
      cases hi
      exact ⟨r, getElem?_concat_length, hr, hid.trans hk.symm⟩
    · rw [AList.lookup_insert_ne hk] at hi
      obtain ⟨v, hv, hstreaming, hid⟩ := h.registered k i hi
      exact ⟨v, concat_of_some hv, hstreaming, hid⟩

theorem handleRequest (ht : msg.type = "request") (hnew : ∀ v ∈ c.requests, v.id ≠ msg.id)
    (hnone : feeds msg.id = none) :
    Feeding (fun k => feedStep k (feeds k) (.frame msg)) (c.handleRequest msg) := by
  obtain ⟨frame, hframe, -⟩ := Connection.notFound_ok msg
  unfold Connection.handleRequest
  rw [hframe]
  split
  · have hnot : ¬ (Request.write c.destroyed { Request.run msg .fn with handler := none } frame
        .done).1.Streaming := by
      unfold Request.Streaming
      rw [Request.write_keeps.handler]
      exact nofun
    exact h.spawn hnot hnew
  · exact h.spawn nofun hnew
  · rename_i handler hfn _
    refine h.spawn_streaming ?_ rfl ht rfl hnew hnone
    cases handler with
    | fn => exact absurd rfl hfn
    | clientStream => exact .inl rfl
    | bidi => exact .inr rfl

theorem handleFrame
    (hnew : msg.type = "request" → (∀ v ∈ c.requests, v.id ≠ msg.id) ∧ feeds msg.id = none) :
    Feeding (fun k => feedStep k (feeds k) (.frame msg)) (c.handleFrame msg) := by
  unfold Connection.handleFrame
  split
  · exact h.handleStream ‹_›
  · rename_i hstream
    split
    · rename_i ht
      exact h.handleRequest ht (hnew ht).1 (hnew ht).2
    · exact h.congr fun k => feedStep_unrelated hstream ‹_›

theorem disconnect : Feeding (fun k => feedStep k (feeds k) .disconnect) c.disconnect := by
  constructor
  · intro i r' hr' hstreaming
    simp only [Connection.disconnect, getElem?_mapIdx] at hr'
    obtain ⟨r, hr, rfl⟩ := map_eq_some_iff.1 hr'
    unfold Connection.failInput at hstreaming ⊢
    split
    · rename_i hopen
      rw [if_pos hopen] at hstreaming
      obtain ⟨f, hf, hfed, hiff⟩ := h.inputs i r hr hstreaming
      have hfinal : f.final = none := hiff.1 hopen
      refine ⟨drop f, congrArg (Option.map drop) hf, ?_, drop_over⟩
      rw [drop, hfinal]
      exact hfed.fail hfinal _
    · rename_i hclosed
      rw [if_neg hclosed] at hstreaming
      obtain ⟨f, hf, hfed, hiff⟩ := h.inputs i r hr hstreaming
      have hfinal : f.final ≠ none := fun hfinal => hclosed (hiff.2 hfinal)
      refine ⟨drop f, congrArg (Option.map drop) hf, ?_, drop_over⟩
      rw [drop_of_over hfinal]
      exact hfed
  · intro k i hi
    cases hi

theorem request {i : Nat} {r r' : Request J} {wire : List (WireMessage J)}
    (hr : c.requests[i]? = some r)
    (hr' : r.Keeps r' ∨ r' = { r with input := r.input.poll take }) :
    Feeding feeds { c with requests := c.requests.set i r', wire } := by
  have hid : r'.id = r.id := by
    rcases hr' with hr' | rfl
    · exact hr'.id
    · rfl
  have hhandler : r'.handler = r.handler := by
    rcases hr' with hr' | rfl
    · exact hr'.handler
    · rfl
  have hinput : r'.input = r.input ∨ r'.input = r.input.poll take := by
    rcases hr' with hr' | rfl
    · exact .inl hr'.input
    · exact .inr rfl
  constructor
  · intro j v hv hstreaming
    rcases set_cases hr hv with ⟨rfl, rfl⟩ | ⟨-, hv⟩
    · unfold Request.Streaming at hstreaming
      rw [hhandler] at hstreaming
      obtain ⟨f, hf, hfed, hopen⟩ := h.inputs _ r hr hstreaming
      rw [hid]
      refine ⟨f, hf, ?_, hopen⟩
      rcases hinput with hinput | hinput <;> rw [hinput]
      · exact hfed
      · exact hfed.poll
    · exact h.inputs j v hv hstreaming
  · intro k j hj
    obtain ⟨v, hv, hstreaming, hk⟩ := h.registered k j hj
    refine exists_set hr hv ?_ ⟨hstreaming, hk⟩
    rintro rfl
    refine ⟨?_, hid.trans hk⟩
    rwa [Request.Streaming, hhandler]

theorem step {l : Label J}
    (hnew : ∀ msg, l = .frame msg → msg.type = "request" → (∀ v ∈ c.requests, v.id ≠ msg.id) ∧
      feeds msg.id = none)
    (hs : step c l = some c') : Feeding (fun k => feedStep k (feeds k) l) c' := by
  cases l with
  | register name handler =>
    cases hs
    exact ⟨h.inputs, h.registered⟩
  | frame msg =>
    rw [Server.step] at hs
    split at hs <;> cases hs
    exact h.handleFrame (hnew msg rfl)
  | disconnect =>
    rw [Server.step] at hs
    split at hs <;> cases hs
    exact h.disconnect
  | destroy =>
    cases hs
    exact ⟨h.inputs, h.registered⟩
  | request i l =>
    obtain ⟨r, hr, hs⟩ := bind_eq_some_iff.1 hs
    obtain ⟨x, hx, hs⟩ := bind_eq_some_iff.1 hs
    cases hs
    exact h.request hr (Request.step_input hx)

end

end Feeding

/-- What holds after the labels `ls`. -/
structure FedBy (ls : List (Label J)) (c : Connection J) : Prop where
  ids : c.requests.map Request.id = ls.flatMap Label.asks
  feeding : (ls.flatMap Label.asks).Nodup → Feeding (fun k => feed k ls) c

theorem FedBy.step {c c' : Connection J} {l : Label J} (h : FedBy ls c) (hs : step c l = some c') :
    FedBy (ls ++ [l]) c' := by
  have hids : c'.requests.map Request.id = (ls ++ [l]).flatMap Label.asks := by
    rw [step_ids hs, h.ids, flatMap_append, flatMap_singleton]
  refine ⟨hids, fun hn => ?_⟩
  rw [← hids] at hn
  have hn' : (ls.flatMap Label.asks).Nodup := by
    rw [step_ids hs, nodup_append] at hn
    exact h.ids ▸ hn.1
  have hfeeds : (fun k => feed k (ls ++ [l])) = fun k => feedStep k (feed k ls) l :=
    funext fun k => feed_concat
  rw [hfeeds]
  refine (h.feeding hn').step (fun msg hl ht => ?_) hs
  subst hl
  have hnew := fresh_of_nodup hs hn ht
  refine ⟨hnew, feed_eq_none fun hmem => ?_⟩
  rw [← h.ids] at hmem
  obtain ⟨r, hr, he⟩ := mem_map.1 hmem
  exact hnew r hr he

/-- **The input of a streaming call**, if the ids of the requests differ: `next` gives the results
of its feed, in order, and waits only while there is none. -/
theorem inputs_faithful {handlers : AList fun _ : String => Handler} {ls : List (Label J)}
    {c : Connection J} (hids : (ls.flatMap Label.asks).Nodup)
    (hrun : run step (.init handlers) ls = some c) {r : Request J} (hr : r ∈ c.requests)
    (hstreaming : r.Streaming) :
    ∃ f, feed r.id ls = some f ∧
      (∀ n < r.input.yields.length, r.input.yields[n]? = f.nth .value n) ∧
      (r.input.consumer = .waiting → f.nth .value r.input.yields.length = none) ∧
      (r.input.consumer = .woken → (f.nth .value r.input.yields.length).isSome) ∧
      ∀ l, (l = .next ∧ r.input.consumer = .idle ∨ l = .resume ∧ r.input.consumer = .woken) →
        ∃ x, r.step c.destroyed l = some x ∧
          x.1.input.yields = r.input.yields ++ (f.nth .value r.input.yields.length).toList := by
  have hinit : FedBy (J := J) [] (.init handlers) := ⟨rfl, fun _ => ⟨nofun, nofun⟩⟩
  have h : FedBy ls c := history_invariant (fun _ _ _ _ h _ => h.step) hinit (.trivial _ _) hrun
  obtain ⟨i, hi⟩ := mem_iff_getElem?.1 hr
  obtain ⟨f, hf, hfed, -⟩ := (h.feeding hids).inputs i r hi hstreaming
  refine ⟨f, hf, fun n => hfed.follows.getElem?_eq, fun hwaiting => ?_, fun hwoken => ?_, ?_⟩
  · have := hfed.alert.waiting hwaiting
    rw [← not_isSome_iff_eq_none, ← hfed.take_isSome, this]
    exact nofun
  · rw [← hfed.take_isSome]
    exact hfed.alert.woken hwoken
  · intro l hl
    exact ⟨_, Request.step_poll hstreaming c.destroyed hl, hfed.poll_yields⟩

def droppedStream : List (Label plain) :=
  [.frame { id := 5, type := "request", func := some "s" }, .request 0 .next,
    .frame { id := 5, type := "stream_chunk", result := Datum.num 1 }, .request 0 .resume,
    .disconnect, .request 0 .next]

theorem inputs_faithful_dropped :
    ∃ c, run step (.init exports) droppedStream = some c ∧ ∃ r ∈ c.requests, r.Streaming ∧
      r.input.yields = [.value (Datum.num 1), .threw "Connection closed"] ∧
      ∃ f, feed r.id droppedStream = some f ∧
        ∀ n < r.input.yields.length, r.input.yields[n]? = f.nth .value n := by
  obtain ⟨c, hrun, r, hr, hstreaming, hyields⟩ : ∃ c,
      run step (.init exports) droppedStream = some c ∧ ∃ r ∈ c.requests, r.Streaming ∧
        r.input.yields = [.value (Datum.num 1), .threw "Connection closed"] :=
    ⟨_, rfl, _, mem_singleton_self _, .inl rfl, rfl⟩
  obtain ⟨f, hf, hnth, -⟩ := inputs_faithful (by decide) hrun hr hstreaming
  exact ⟨c, hrun, r, hr, hstreaming, hyields, f, hf, hnth⟩

end

end Callwire.Ts.Server
