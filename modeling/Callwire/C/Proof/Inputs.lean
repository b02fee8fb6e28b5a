import Callwire.C.Proof.ServerStep

/-!
# Who owns a stream input

A dispatch thread with streaming input owns the input of its request until it has removed it, and
so does the read loop between registering an input and creating its thread. As long as an input is
registered only under an id that no registered input has (`Fresh`), every owner's input stays
registered and owners have distinct ids (`Owned`): a thread removes its own input only, and no
registered input is freed.
-/

namespace Callwire.C

open Lib List Thread Conn

def Thread.owns (t : Thread) : Bool :=
  t.entry.kind.hasInput && match t.pc with
    | .free _ => false
    | .done => false
    | _ => true

/-- The pcs of a thread without streaming input. -/
def ThreadPc.plain : ThreadPc → Bool
  | .running _ => true
  | .reply _ _ => true
  | .done => true
  | _ => false

/-- Every owner has its input, under its own id. -/
structure Owned (c : Conn) : Prop where
  alive : ∀ r ∈ c.inputs, c.flags[r]? = some false
  freeing : ∀ t ∈ c.threads, ∀ r, t.pc = .free r → r < c.flags.length ∧ r ∉ c.inputs
  distinct : (c.inputs.map (c.ids[·]?)).Nodup
  owner : ∀ (i : Nat) (t : Thread), c.threads[i]? = some t → t.owns = true →
    ∃ r ∈ c.inputs, c.ids[r]? = some t.id ∧ ∀ input, t.pc = .running input → input = some r
  unique : ∀ (i j : Nat) (t u : Thread), c.threads[i]? = some t → c.threads[j]? = some u →
    t.owns = true → u.owns = true → t.id = u.id → i = j
  spawning : ∀ (e : Entry) (id : BitVec 64) (args : List Value), c.loop = .spawn e id args →
    e.kind.hasInput = true →
      (∃ r ∈ c.inputs, c.ids[r]? = some id) ∧ ∀ t ∈ c.threads, t.owns = true → t.id ≠ id
  plain : ∀ t ∈ c.threads, t.entry.kind.hasInput = false → t.pc.plain = true

theorem Owned.init : Owned .init where
  alive := by simp [Conn.init]
  freeing := by simp [Conn.init]
  distinct := by simp [Conn.init]
  owner := by simp [Conn.init]
  unique := by simp [Conn.init]
  spawning := by simp [Conn.init]
  plain := by simp [Conn.init]

section
variable {c c' : Conn} {i : Nat} {t t' : Thread} {id : BitVec 64}

theorem heap_length : c.heap.length = c.flags.length := by simp [flags]

theorem Owned.bound (h : Owned c) (r : Nat) (hr : r ∈ c.inputs) : r < c.ids.length := by
  simpa [ids, flags] using lt_of_some (h.alive r hr)

theorem Owned.input_eq (h : Owned c) {r r' : Nat} (hr : r ∈ c.inputs) (hr' : r' ∈ c.inputs)
    (hid : c.ids[r]? = c.ids[r']?) : r = r' :=
  inj_on_of_nodup_map h.distinct hr hr' hid

theorem Owned.find_eq (h : Owned c) {r : Nat} (hr : r ∈ c.inputs) (hid : c.ids[r]? = some id) :
    c.connFindInput id = some r := by
  cases hf : c.connFindInput id with
  | none => exact absurd hid (connFindInput_none hf r hr)
  | some r' =>
    obtain ⟨hr', hid'⟩ := connFindInput_some hf
    rw [h.input_eq hr hr' (hid.trans hid'.symm)]

theorem Thread.owns_iff : t.owns = true ↔
    t.entry.kind.hasInput = true ∧ (∀ r, t.pc ≠ .free r) ∧ t.pc ≠ .done := by
  unfold owns
  cases t.pc <;> simp

theorem hasInput_of_recv {e : Entry} {args : List Value} {events : List Event}
    (h : e.fn i args events = .recv) : e.kind.hasInput = true := by
  have hallow := e.allowed i args events
  rw [h] at hallow
  exact hallow

theorem Owned.owns_of_remove (h : Owned c) (ht : c.threads[i]? = some t) (hpc : t.pc = .remove) :
    t.owns = true := by
  refine owns_iff.2 ⟨?_, by simp [hpc], by simp [hpc]⟩
  by_contra hk
  have hplain := h.plain t (mem_of_getElem? ht) (by simpa using hk)
  rw [hpc] at hplain
  cases hplain

theorem owns_mono (he : t'.entry = t.entry) (hpc : (∀ r, t.pc ≠ .free r) ∧ t.pc ≠ .done) :
    t'.owns = true → t.owns = true := fun ho =>
  owns_iff.2 ⟨he ▸ (owns_iff.1 ho).1, hpc⟩

/-- Only queues, frames, replies and the read loop's place change, and no thread is to be
created. -/
theorem Owned.congr (h : Owned c) (hin : c'.inputs = c.inputs) (hids : c'.ids = c.ids)
    (hfl : c'.flags = c.flags) (hth : c'.threads = c.threads)
    (hsp : ∀ e id args, c'.loop ≠ .spawn e id args) : Owned c' where
  alive := by rw [hin, hfl]; exact h.alive
  freeing := by rw [hth, hfl, hin]; exact h.freeing
  distinct := by rw [hin, hids]; exact h.distinct
  owner := by rw [hin, hids, hth]; exact h.owner
  unique := by rw [hth]; exact h.unique
  spawning e id args hl := absurd hl (hsp e id args)
  plain := by rw [hth]; exact h.plain

theorem Owned.setThread (h : Owned c) (hin : c'.inputs = c.inputs) (hids : c'.ids = c.ids)
    (hfl : c'.flags = c.flags) (hlp : c'.loop = c.loop) (ht : c.threads[i]? = some t)
    (hth : c'.threads = c.threads.set i t')
    (hid : t'.id = t.id) (he : t'.entry = t.entry) (ho : t'.owns = true → t.owns = true)
    (hrun : ∀ input, t'.pc = .running input →
      t.pc = .running input ∨ input = c.connFindInput t.id)
    (hfree : ∀ r, t'.pc ≠ .free r) (hpl : t.entry.kind.hasInput = false → t'.pc.plain = true) :
    Owned c' where
  alive := by rw [hin, hfl]; exact h.alive
  freeing := by
    rw [hth, hfl, hin]
    exact forall_set ht h.freeing fun r hr => absurd hr (hfree r)
  distinct := by rw [hin, hids]; exact h.distinct
  owner := by
    rw [hin, hids, hth]
    intro j u hu hown
    rcases set_cases ht hu with ⟨-, rfl⟩ | ⟨-, hu⟩
    · obtain ⟨r, hr, hrid, hrr⟩ := h.owner i t ht (ho hown)
      refine ⟨r, hr, by rw [hid, hrid], fun input hpc => ?_⟩
      rcases hrun input hpc with hpc | rfl
      · exact hrr input hpc
      · exact h.find_eq hr hrid
    · exact h.owner j u hu hown
  unique := by
    rw [hth]
    intro j k u v hu hv hou hov huv
    rcases set_cases ht hu with ⟨rfl, rfl⟩ | ⟨-, hu'⟩ <;>
      rcases set_cases ht hv with ⟨rfl, rfl⟩ | ⟨-, hv'⟩
    · rfl
    · exact h.unique _ _ _ _ ht hv' (ho hou) hov (hid ▸ huv)
    · exact h.unique _ _ _ _ hu' ht hou (ho hov) (hid ▸ huv)
    · exact h.unique _ _ _ _ hu' hv' hou hov huv
  spawning := by
    rw [hin, hids, hth, hlp]
    intro e id args hl hk
    obtain ⟨hr, hne⟩ := h.spawning e id args hl hk
    refine ⟨hr, forall_set ht hne fun hown => ?_⟩
    rw [hid]
    exact hne t (mem_of_getElem? ht) (ho hown)
  plain := by
    rw [hth]
    exact forall_set ht h.plain fun hk => hpl (he ▸ hk)

/-! ## The array -/

theorem Owned.inputs_nodup (h : Owned c) : c.inputs.Nodup := h.distinct.of_map

theorem Owned.remove {j r : Nat} (h : Owned c) (ht : c.threads[i]? = some t)
    (hpc : t.pc = .remove) (hj : c.inputs[j]? = some r) (hid : c.hasId t.id r = true) :
    Owned (Conn.setThread { c with inputs := swapRemove c.inputs j } i
      { t with pc := .free r }) := by
  have hr := mem_of_getElem? hj
  have hmem := mem_swapRemove h.inputs_nodup hj
  have htm := mem_of_getElem? ht
  have hown : t.owns = true := h.owns_of_remove ht hpc
  have hk := (owns_iff.1 hown).1
  rw [hasId_iff] at hid
  -- another id's input is another input, so it stays
  have stays : ∀ r' ∈ c.inputs, ∀ id, c.ids[r']? = some id → id ≠ t.id →
      r' ∈ swapRemove c.inputs j := by
    intro r' hr' id hid' hne
    refine (hmem r').2 ⟨hr', ?_⟩
    rintro rfl
    exact hne (Option.mem_unique hid' hid)
  constructor
  · exact fun r' hr' => h.alive r' ((hmem r').1 hr').1
  · refine forall_set ht (fun u hu r' hur => ?_) fun r' hr' => ?_
    · obtain ⟨hlt, hne⟩ := h.freeing u hu r' hur
      exact ⟨hlt, fun hm => hne ((hmem r').1 hm).1⟩
    · cases hr'
      exact ⟨lt_of_some (h.alive r hr), fun hm => ((hmem r).1 hm).2 rfl⟩
  · have hp := (swapRemove_perm hj).map (c.ids[·]?)
    exact (nodup_cons.1 (hp.nodup_iff.2 h.distinct)).2
  · intro k u hu hou
    rcases set_cases ht hu with ⟨-, rfl⟩ | ⟨hik, hu⟩
    · simp [owns] at hou
    · obtain ⟨r', hr', hid', hrun⟩ := h.owner k u hu hou
      refine ⟨r', stays r' hr' u.id hid' fun he => hik ?_, hid', hrun⟩
      exact h.unique i k t u ht hu hown hou he.symm
  · intro k l u v hu hv hou hov huv
    rcases set_cases ht hu with ⟨-, rfl⟩ | ⟨-, hu⟩
    · simp [owns] at hou
    · rcases set_cases ht hv with ⟨-, rfl⟩ | ⟨-, hv⟩
      · simp [owns] at hov
      · exact h.unique k l u v hu hv hou hov huv
  · intro e id args hl hke
    obtain ⟨⟨r', hr', hid'⟩, hne⟩ := h.spawning e id args hl hke
    refine ⟨⟨r', stays r' hr' id hid' (hne t htm hown).symm, hid'⟩, forall_set ht hne fun hou => ?_⟩
    simp [owns] at hou
  · exact forall_set ht h.plain fun hku => absurd hk (by simpa using hku)

theorem Owned.register {e : Entry} {args : List Value} (h : Owned c)
    (hfresh : ∀ r ∈ c.inputs, c.ids[r]? ≠ some id) :
    Owned { c.connRegisterInput id with loop := .spawn e id args } := by
  have hids : (c.connRegisterInput id).ids = c.ids ++ [id] := by
    simp [ids, connRegisterInput]
  have hlen : c.ids.length = c.heap.length := by simp [ids]
  have old : ∀ r ∈ c.inputs, (c.ids ++ [id])[r]? = c.ids[r]? := fun r hr =>
    getElem?_append_left (h.bound r hr)
  have new : (c.ids ++ [id])[c.heap.length]? = some id := by simp [← hlen]
  have hfl : (c.connRegisterInput id).flags = c.flags ++ [false] := by
    simp [flags, connRegisterInput]
  constructor
  · intro r hr
    change (c.connRegisterInput id).flags[r]? = some false
    rw [hfl]
    rcases mem_concat_cases hr with hr | rfl
    · exact concat_of_some (h.alive r hr)
    · rw [heap_length]
      exact getElem?_concat_length
  · intro u hu r hur
    obtain ⟨hlt, hr⟩ := h.freeing u hu r hur
    change r < (c.connRegisterInput id).flags.length ∧ r ∉ c.inputs ++ [c.heap.length]
    rw [hfl, length_append, mem_append, mem_singleton, heap_length]
    exact ⟨Nat.lt_add_right _ hlt, fun hm => hm.elim hr (Nat.ne_of_lt hlt)⟩
  · change ((c.inputs ++ [c.heap.length]).map ((c.connRegisterInput id).ids[·]?)).Nodup
    rw [hids, map_append, map_congr_left old, nodup_append]
    refine ⟨h.distinct, by simp, ?_⟩
    intro a ha b hb
    obtain ⟨r, hr, rfl⟩ := mem_map.1 ha
    obtain rfl : b = some id := by simpa [new] using hb
    exact hfresh r hr
  · intro k u hu hou
    obtain ⟨r, hr, hid, hrun⟩ := h.owner k u hu hou
    exact ⟨r, mem_append_left _ hr, by
      change (c.connRegisterInput id).ids[r]? = _
      rw [hids, old r hr, hid], hrun⟩
  · exact h.unique
  · intro e' id' args' hl hk
    cases hl
    refine ⟨⟨c.heap.length, mem_append_right _ (by simp), ?_⟩, fun u hu hou heq => ?_⟩
    · change (c.connRegisterInput id).ids[c.heap.length]? = _
      rw [hids, new]
    · obtain ⟨k, hk⟩ := mem_iff_getElem?.1 hu
      obtain ⟨r, hr, hid, -⟩ := h.owner k u hk hou
      exact hfresh r hr (hid.trans (by rw [heq]))
  · exact h.plain

theorem Owned.spawn {e : Entry} {args : List Value} (h : Owned c) (hl : c.loop = .spawn e id args) :
    Owned { c with threads := c.threads ++ [newThread e id args], loop := .reading } := by
  have hnew : ∀ {k : Nat} {u : Thread}, (c.threads ++ [newThread e id args])[k]? = some u →
      c.threads[k]? = some u ∨ k = c.threads.length ∧ u = newThread e id args := concat_cases
  have hnid := newThread_id e id args
  have hent := newThread_entry e id args
  have hkind : (newThread e id args).owns = true → e.kind.hasInput = true := fun ho =>
    hent ▸ (owns_iff.1 ho).1
  constructor
  · exact h.alive
  · refine forall_concat h.freeing fun r hr => ?_
    unfold newThread at hr
    split at hr <;> cases hr
  · exact h.distinct
  · intro k u hu hou
    rcases hnew hu with hu | ⟨-, rfl⟩
    · exact h.owner k u hu hou
    · obtain ⟨⟨r, hr, hid⟩, -⟩ := h.spawning e id args hl (hkind hou)
      refine ⟨r, hr, by rw [hnid]; exact hid, fun input hpc => ?_⟩
      rw [newThread, if_pos (hkind hou)] at hpc
      cases hpc
  · intro k l u v hu hv hou hov huv
    rcases hnew hu with hu' | ⟨rfl, rfl⟩ <;> rcases hnew hv with hv' | ⟨rfl, rfl⟩
    · exact h.unique k l u v hu' hv' hou hov huv
    · exact absurd (huv.trans hnid)
        ((h.spawning e id args hl (hkind hov)).2 u (mem_of_getElem? hu') hou)
    · exact absurd (huv.symm.trans hnid)
        ((h.spawning e id args hl (hkind hou)).2 v (mem_of_getElem? hv') hov)
    · rfl
  · intro e' id' args' hl'
    cases hl'
  · intro u hu hk
    rcases mem_append.1 hu with hu | hu
    · exact h.plain u hu hk
    · obtain rfl : u = newThread e id args := by simpa using hu
      rw [hent] at hk
      rw [newThread, if_neg (by simp [hk])]
      rfl

theorem Owned.free {r : Nat} (h : Owned c) (ht : c.threads[i]? = some t) (hpc : t.pc = .free r) :
    Owned ((c.streamInputFree r).setThread i { t with pc := .done }) := by
  have hne := (h.freeing t (mem_of_getElem? ht) r hpc).2
  have ho : Owned (c.setThread i { t with pc := .done }) := by
    refine h.setThread rfl rfl rfl rfl ht rfl rfl rfl ?_ (by simp) (by simp) fun _ => rfl
    simp [owns]
  have hids : ids ((c.streamInputFree r).setThread i { t with pc := .done }) = c.ids :=
    streamInputFree_ids
  refine ⟨fun r' hr' => ?_, fun u hu r' hur => ?_, ?_, ?_, ho.unique, ?_, ho.plain⟩
  · have hrr : r ≠ r' := fun he => hne (he ▸ hr')
    rw [← h.alive r' hr', flags, flags, getElem?_map, getElem?_map]
    exact congrArg _ (getElem?_modify_ne _ _ hrr)
  · have hlen : (c.streamInputFree r).flags.length = c.flags.length := by
      simp [flags, streamInputFree]
    exact (ho.freeing u hu r' hur).imp_left hlen.trans_gt
  · rw [hids]
    exact ho.distinct
  · rw [hids]
    exact ho.owner
  · rw [hids]
    exact ho.spawning

theorem Owned.ne_of_freed {r r' : Nat} {inp : Input} (h : Owned c) (hr : c.heap[r]? = some inp)
    (hf : inp.freed = true) (hr' : r' ∈ c.inputs) : r ≠ r' := by
  rintro rfl
  have hlive := h.alive r hr'
  rw [flags, getElem?_map, hr, Option.map_some, hf] at hlive
  cases hlive

/-- Another input in a block that is not the connection's any more. -/
theorem Owned.reuse {r : Nat} {inp : Input} {queue : Queue Item} (h : Owned c)
    (hr : c.heap[r]? = some inp) (hf : inp.freed = true) :
    Owned { c with heap := c.heap.set r ⟨id, queue, true⟩ } := by
  have hfl : flags { c with heap := c.heap.set r ⟨id, queue, true⟩ } = c.flags :=
    map_set_of_eq _ hr hf.symm
  have hids : ∀ r' ∈ c.inputs,
      (ids { c with heap := c.heap.set r ⟨id, queue, true⟩ })[r']? = c.ids[r']? := by
    intro r' hr'
    rw [ids, getElem?_map, getElem?_set_ne (h.ne_of_freed hr hf hr'), ids, getElem?_map]
  refine ⟨hfl.symm ▸ h.alive, hfl.symm ▸ h.freeing, ?_, ?_, h.unique, ?_, h.plain⟩
  · rw [map_congr_left hids]
    exact h.distinct
  · intro j u hu hou
    obtain ⟨r', hr', hid, hrun⟩ := h.owner j u hu hou
    exact ⟨r', hr', (hids r' hr').trans hid, hrun⟩
  · intro e id' args hl hk
    obtain ⟨⟨r', hr', hid⟩, hne⟩ := h.spawning e id' args hl hk
    exact ⟨⟨r', hr', (hids r' hr').trans hid⟩, hne⟩

end

/-! ## Steps and runs -/

section
variable {entries : List Entry} {c c' : Conn} {l : Label}

/-- A request that gets a stream input, because its handler takes one and its `stream` field agrees
with the kind of the handler, comes under an id that no registered input has. -/
def Fresh (entries : List Entry) (c : Conn) (l : Label) : Prop :=
  ∀ ok msg func e, l = .loop ok → c.loop = .request msg → msg.func = some func →
    findHandler entries func = some e → e.kind.hasInput = true →
      (e.kind = .bidiCtx ↔ msg.stream ≠ 0) → ∀ r ∈ c.inputs, c.ids[r]? ≠ some msg.id

theorem drain_flags (c : Conn) : c.drainInputs.flags = c.flags := by
  have hfold : ∀ (rs : List Nat) (d : Conn),
      (rs.foldl (fun d r => d.streamInputPush r .fin) d).flags = d.flags := by
    intro rs
    induction rs with
    | nil => exact fun d => rfl
    | cons r rs ih => exact fun d => (ih _).trans (push_flags d .fin)
  exact hfold c.inputs c

theorem drainInputs_eq (c : Conn) :
    c.drainInputs.inputs = c.inputs ∧ c.drainInputs.ids = c.ids ∧
      c.drainInputs.threads = c.threads ∧ c.drainInputs.frames = c.frames ∧
      c.drainInputs.out = c.out := by
  have hfold : ∀ (rs : List Nat) (d : Conn),
      (rs.foldl (fun d r => d.streamInputPush r .fin) d).inputs = d.inputs ∧
      (rs.foldl (fun d r => d.streamInputPush r .fin) d).ids = d.ids ∧
      (rs.foldl (fun d r => d.streamInputPush r .fin) d).threads = d.threads ∧
      (rs.foldl (fun d r => d.streamInputPush r .fin) d).frames = d.frames ∧
      (rs.foldl (fun d r => d.streamInputPush r .fin) d).out = d.out := by
    intro rs
    induction rs with
    | nil => exact fun d => ⟨rfl, rfl, rfl, rfl, rfl⟩
    | cons r rs ih =>
      intro d
      obtain ⟨h1, h2, h3, h4, h5⟩ := ih (d.streamInputPush r .fin)
      exact ⟨h1, h2.trans (streamInputPush_ids _), h3, h4, h5⟩
  exact hfold c.inputs c

/-- **Every step keeps the ownership.** -/
theorem Owned.step (h : Owned c) (hf : Fresh entries c l)
      (hs : Callwire.C.step entries c l = some c') :
    Owned c' := by
  cases step_move hs with
  | malformed => exact h
  | route => exact h.congr rfl rfl rfl rfl (by simp)
  | discard hl => exact h.congr rfl rfl rfl rfl (by simp [hl])
  | request => exact h.congr rfl rfl rfl rfl (by simp)
  | drain =>
    obtain ⟨h1, h2, h3, -⟩ := drainInputs_eq c
    exact h.congr h1 h2 (drain_flags c) h3 (by simp [drainInputs])
  | push => exact h.congr rfl (streamInputPush_ids _) (push_flags c _) rfl (by simp)
  | refuse =>
    exact h.congr (write_inputs _ _ _) (write_ids _ _) (write_flags _ _ _) (write_threads _ _ _)
      (by simp)
  | register hl hfn he hk hst => exact h.register (hf _ _ _ _ rfl hl hfn he hk hst)
  | accept hl hfn he hk =>
    refine { h with spawning := ?_ }
    rintro e' id args ⟨⟩ hk'
    exact absurd hk' (by simp [hk])
  | spawn hl => exact h.spawn hl
  | noThread => exact h.congr rfl rfl rfl rfl (by simp)
  | find ht hpc =>
    refine h.setThread rfl rfl rfl rfl ht rfl rfl rfl (owns_mono rfl (by simp [hpc])) ?_ (by simp)
      fun _ => rfl
    rintro input ⟨⟩
    exact .inr rfl
  | ret ht hpc =>
    exact h.setThread rfl rfl rfl rfl ht rfl rfl rfl (owns_mono rfl (by simp [hpc])) (by simp)
      (by simp) fun _ => rfl
  | emit ht hpc =>
    refine h.setThread (write_inputs _ _ _) (write_ids _ _) (write_flags _ _ _) (write_loop _ _ _)
      ht (write_setThread _ _ _ _ _) rfl rfl (owns_mono rfl (by simp [hpc]))
      (fun _ hp => .inl hp) (by simp [hpc]) fun _ => ?_
    simp [hpc, ThreadPc.plain]
  | @recv i t ok r inp item queue ht hpc ha hr hq =>
    have hids : ids { c with heap := c.heap.set r { inp with queue } } = c.ids :=
      map_set_of_eq _ hr rfl
    refine h.setThread rfl hids (map_set_of_eq _ hr rfl) rfl ht rfl rfl rfl
      (owns_mono rfl (by simp [hpc])) (fun _ hp => .inl hp) (by simp [hpc]) fun _ => ?_
    simp [hpc, ThreadPc.plain]
  | @reply i t ok rc result ht hpc =>
    refine h.setThread (write_inputs _ _ _) (write_ids _ _) (write_flags _ _ _) (write_loop _ _ _)
      ht (write_setThread _ _ _ _ _) rfl rfl (owns_mono rfl (by simp [hpc])) ?_ ?_ fun hk => ?_
    · intro input hp
      cases hk : t.entry.kind.hasInput <;> simp [hk] at hp
    · cases t.entry.kind.hasInput <;> simp
    · simp [hk, ThreadPc.plain]
  | remove ht hpc hj hid => exact h.remove ht hpc hj hid
  | removeNone ht hpc =>
    exact h.setThread rfl rfl rfl rfl ht rfl rfl rfl (owns_mono rfl (by simp [hpc])) (by simp)
      (by simp) fun _ => rfl
  | free ht hpc => exact h.free ht hpc
  | reuse hr hfreed => exact h.reuse hr hfreed

end

end Callwire.C
