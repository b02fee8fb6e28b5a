import Callwire.Go.Batch
import Callwire.Go.Proof.Correlation
import Callwire.Go.Proof.Library

/-!
# The results of a batch

Goroutine `i` of a batch makes the `Import` of call `i` and puts its result into place `i`. What
`Batch` and `BatchT` return is therefore in the order of the calls, whatever the order of the
requests and of the replies, and no frame is the reply of two calls (`batch_inOrder`). A batch can
always return: no goroutine needs more than its context to end (`Collected.canReturn`).
-/

namespace Callwire.Go

open Lib List Option Goroutine

/-! ## What a batch returns -/

/-- The entry of a call that is answered with `msg`: the error it carries, or its decoding. -/
def Decodes {Resp : Type} (unmarshal : Bytes → Option Resp) (m : Msgpack) (msg : WireMessage)
    (v : Resp) (err : Option CallError) : Prop :=
  if msg.type = "error" then err = some (.wire msg.errorType msg.message)
  else
    match unmarshal (m.marshal msg.result) with
    | some resp => v = resp ∧ err = none
    | none => err = some .decode

/-- The errors of a call without a frame. -/
def CallError.Frameless (err : CallError) : Prop :=
  err ∈ [.encode, .write, .context, .wire "ConnectionClosed" "client closed",
    .wire "TransportError" "connection lost"]

namespace Batch
variable {Resp R : Type} (unmarshal : Bytes → Option Resp) (m : Msgpack) (calls : List BatchCall)

/-- Place `i` is from frame `frame`, the first one with the id of the call that was handled since
the call was registered, or has an error that comes without a frame. -/
def Entry (b : Batch R) (i : Nat) (call : BatchCall) (v : Resp) (err : Option CallError)
    (frame : Option Nat) : Prop :=
  ∃ j imp, b.goroutines[i]? = some (.done j) ∧ b.client.calls[j]? = some imp ∧
    imp.payload = request imp.id call.func call.args ∧
    ((∃ k msg, frame = some k ∧ FirstFrame b.client.handled imp k msg ∧
      Decodes unmarshal m msg v err) ∨ ∃ e, err = some e ∧ e.Frameless)

/-- **Every call has its entry in its place**, and the entries are from different frames. -/
def InOrder (b : Batch R) (entry : Nat → Option (Resp × Option CallError)) : Prop :=
  ∃ frame : Nat → Option Nat,
    (∀ i call v err, calls[i]? = some call → entry i = some (v, err) →
      b.Entry unmarshal m i call v err (frame i)) ∧
    ∀ i i' k, frame i = some k → frame i' = some k → i = i'

end Batch

/-- The moves of the goroutines, without any frame. -/
def BatchLabel.Own : BatchLabel → Prop
  | .client (.call _ _) | .call _ | .assign _ | .wait => True
  | .client _ => False

/-- A result has places `0, .., n - 1` that are assigned one by one. -/
structure BatchFunc.Lawful {Resp R : Type} (f : BatchFunc Resp R) (Sized : R → Nat → Prop)
    (entry : R → Nat → Option (Resp × Option CallError)) : Prop where
  sized_make : ∀ n, Sized (f.make n) n
  sized_assign : ∀ r n i v err, Sized r n → Sized (f.assign r i v err) n
  entry_self : ∀ r n i v err, Sized r n → i < n → entry (f.assign r i v err) i = some (v, err)
  entry_other : ∀ r i j v err, i ≠ j → entry (f.assign r i v err) j = entry r j

/-- The call of the client that a goroutine makes. -/
def Goroutine.call? : Goroutine → Option Nat
  | .spawned => none
  | .importing j | .done j => some j

/-- What a goroutine counts for in `wg`. -/
def Goroutine.running : Goroutine → Nat
  | .spawned | .importing _ => 1
  | .done _ => 0

/-- Goroutine `i` makes the `Import` that is call `j` of the client. -/
def Batch.Imports {R : Type} (b : Batch R) (i j : Nat) : Prop :=
  ∃ g, b.goroutines[i]? = some g ∧ g.call? = some j

/-- The goroutines collect the results of different calls of the client. -/
structure Collected {Resp R : Type} (f : BatchFunc Resp R) (m : Msgpack) (calls : List BatchCall)
    (Sized : R → Nat → Prop) (entry : R → Nat → Option (Resp × Option CallError))
    (b : Batch R) : Prop where
  client : Correlated b.client
  length : b.goroutines.length = calls.length
  sized : Sized b.results calls.length
  wg : b.wg = (b.goroutines.map running).sum
  imports : ∀ i j, b.Imports i j → ∃ call imp, calls[i]? = some call ∧
    b.client.calls[j]? = some imp ∧ imp.kind = .importUnary ∧
      imp.payload = request imp.id call.func call.args
  distinct : ∀ i i' j, b.Imports i j → b.Imports i' j → i = i'
  done : ∀ i j, b.goroutines[i]? = some (.done j) → ∃ imp o r, b.client.calls[j]? = some imp ∧
    imp.pc = .returned o ∧ f.importResult m o = some r ∧ entry b.results i = some r
  returned : ∀ r, b.returned = some r → r = b.results ∧ b.wg = 0

variable {Resp R : Type} {f : BatchFunc Resp R} {m : Msgpack} {reconnect : Bool}
  {calls : List BatchCall} {Sized : R → Nat → Prop}
  {entry : R → Nat → Option (Resp × Option CallError)} {b b' : Batch R}

namespace Collected

theorem start (hf : f.Lawful Sized entry) {c : Client} (hc : Correlated c) :
    Collected f m calls Sized entry (.start f calls c) := by
  have hspawned : ∀ (i : Nat) (g : Goroutine), (Batch.start f calls c).goroutines[i]? = some g →
    g = .spawned := by
    intro i g hg
    exact eq_of_mem_replicate (mem_of_getElem? hg)
  have hnone : ∀ i j, ¬ (Batch.start f calls c).Imports i j := by
    rintro i j ⟨g, hg, hj⟩
    rw [hspawned i g hg] at hj
    cases hj
  refine ⟨hc, length_replicate, hf.sized_make _, ?_, fun i j h => absurd h (hnone i j),
    fun i _ j h => absurd h (hnone i j), fun i j h => ?_, nofun⟩
  · show calls.length = ((List.replicate calls.length spawned).map _).sum
    rw [map_replicate, sum_replicate_nat]
    exact (Nat.mul_one _).symm
  · cases hspawned i _ h

section
variable (h : Collected f m calls Sized entry b)
include h

theorem client_step {l : Label} {c' : Client} (hstep : Go.step m reconnect b.client l = some c') :
    Collected f m calls Sized entry { b with client := c' } := by
  refine ⟨h.client.step hstep, h.length, h.sized, h.wg, fun i j hij => ?_, h.distinct,
    fun i j hg => ?_, h.returned⟩
  · obtain ⟨call, imp, hcall, himp, hk, hp⟩ := h.imports i j hij
    obtain ⟨imp', himp', hkind, hid, hpayload, -⟩ := h.client.kept hstep himp
    exact ⟨call, imp', hcall, himp', hkind.trans hk, by rw [hpayload, hid, hp]⟩
  · obtain ⟨call, imp, -, himp, hk, -⟩ := h.imports i j ⟨_, hg, rfl⟩
    obtain ⟨imp₀, o, r, himp₀, hpc, hr, hentry⟩ := h.done i j hg
    obtain rfl : imp = imp₀ := mem_unique himp himp₀
    obtain ⟨imp', himp', -, -, -, hret⟩ := h.client.kept hstep himp
    exact ⟨imp', o, r, himp', hret o hk hpc, hr, hentry⟩

theorem importing {i j : Nat} {call : BatchCall} {imp : Call}
    (hi : b.goroutines[i]? = some .spawned) (hcall : calls[i]? = some call)
    (himp : b.client.calls[j]? = some imp) (hk : imp.kind = .importUnary)
    (hp : imp.payload = request imp.id call.func call.args) (hnew : ∀ i', ¬ b.Imports i' j) :
    Collected f m calls Sized entry
      { b with goroutines := b.goroutines.set i (.importing j) } := by
  -- the new `Import`, or those before
  have himports : ∀ {i' j'}, Batch.Imports
      { b with goroutines := b.goroutines.set i (.importing j) } i' j' →
      i' = i ∧ j' = j ∨ b.Imports i' j' := by
    rintro i' j' ⟨g, hg, hj⟩
    rcases set_cases hi hg with ⟨rfl, rfl⟩ | ⟨-, hg⟩
    · cases hj
      exact .inl ⟨rfl, rfl⟩
    · exact .inr ⟨g, hg, hj⟩
  refine ⟨h.client, length_set.trans h.length, h.sized, ?_, fun i' j' hij => ?_,
    fun i₁ i₂ j' h₁ h₂ => ?_, fun i' j' hg => ?_, h.returned⟩
  · have hmap : (b.goroutines.set i (.importing j)).map running =
        b.goroutines.map running := map_set_of_eq _ hi rfl
    exact h.wg.trans (congrArg List.sum hmap.symm)
  · rcases himports hij with ⟨rfl, rfl⟩ | hij
    · exact ⟨call, imp, hcall, himp, hk, hp⟩
    · exact h.imports i' j' hij
  · rcases himports h₁ with ⟨hi₁, hj₁⟩ | hold₁
    · rcases himports h₂ with ⟨hi₂, -⟩ | hold₂
      · exact hi₁.trans hi₂.symm
      · exact absurd (hj₁ ▸ hold₂) (hnew i₂)
    · rcases himports h₂ with ⟨-, hj₂⟩ | hold₂
      · exact absurd (hj₂ ▸ hold₁) (hnew i₁)
      · exact h.distinct i₁ i₂ j' hold₁ hold₂
  · rcases set_cases hi hg with ⟨-, hdone⟩ | ⟨-, hg⟩
    · cases hdone
    · exact h.done i' j' hg

theorem assigned (hf : f.Lawful Sized entry) {i j : Nat} {imp : Call} {o : Outcome} {v : Resp}
    {err : Option CallError} (hi : b.goroutines[i]? = some (.importing j))
    (himp : b.client.calls[j]? = some imp) (hpc : imp.pc = .returned o)
    (hr : f.importResult m o = some (v, err)) :
    Collected f m calls Sized entry
      { b with
        results := f.assign b.results i v err
        wg := b.wg - 1
        goroutines := b.goroutines.set i (.done j) } := by
  have himports : ∀ {i' j'}, Batch.Imports
      { b with goroutines := b.goroutines.set i (.done j) } i' j' → b.Imports i' j' := by
    rintro i' j' ⟨g, hg, hj⟩
    rcases set_cases hi hg with ⟨rfl, rfl⟩ | ⟨-, hg⟩
    · exact ⟨_, hi, hj⟩
    · exact ⟨g, hg, hj⟩
  have hrunning : (b.goroutines.map running)[i]? = some 1 := by
    rw [getElem?_map, hi]
    rfl
  have hsum := sum_set_add 0 hrunning
  have hwg := h.wg
  have hlt : i < calls.length := h.length ▸ (lt_of_some hi)
  refine ⟨h.client, length_set.trans h.length, hf.sized_assign _ _ _ _ _ h.sized, ?_,
    fun i' j' hij => h.imports i' j' (himports hij),
    fun i₁ i₂ j' h₁ h₂ => h.distinct i₁ i₂ j' (himports h₁) (himports h₂), fun i' j' hg => ?_,
    fun r hr => ?_⟩
  · show b.wg - 1 = ((b.goroutines.set i (.done j)).map running).sum
    rw [map_set]
    show b.wg - 1 = ((b.goroutines.map running).set i 0).sum
    omega
  · rcases set_cases hi hg with ⟨rfl, hdone⟩ | ⟨hne, hg⟩
    · rw [done.inj hdone]
      exact ⟨imp, o, (v, err), himp, hpc, hr, hf.entry_self _ _ _ _ _ h.sized hlt⟩
    · obtain ⟨imp', o', r, himp', hpc', hr', hentry⟩ := h.done i' j' hg
      exact ⟨imp', o', r, himp', hpc', hr', (hf.entry_other _ _ _ _ _ hne).trans hentry⟩
  · obtain ⟨-, hzero⟩ := h.returned r hr
    omega

theorem step (hf : f.Lawful Sized entry) {l : BatchLabel}
    (hstep : b.step f m reconnect calls l = some b') : Collected f m calls Sized entry b' := by
  cases l with
  | client l =>
    obtain ⟨c', hc', rfl⟩ := map_eq_some_iff.1 hstep
    exact h.client_step hc'
  | call i =>
    rw [Batch.step, Batch.call] at hstep
    split at hstep
    · rename_i call hi hcall
      obtain ⟨c', hc', rfl⟩ := map_eq_some_iff.1 hstep
      have hcollected := h.client_step hc'
      have hnew : ∀ i', ¬ b.Imports i' b.client.calls.length := by
        intro i' hij
        obtain ⟨-, imp, -, himp, -⟩ := h.imports _ _ hij
        cases (getElem?_eq_none (Nat.le_refl _)).symm.trans himp
      cases step_move hc'
      exact hcollected.importing hi hcall getElem?_concat_length rfl rfl hnew
    · cases hstep
  | assign i =>
    obtain ⟨g, hg, hstep⟩ := bind_eq_some_iff.1 hstep
    cases g with
    | importing j =>
      obtain ⟨imp, himp, hstep⟩ := bind_eq_some_iff.1 hstep
      split at hstep
      · rename_i o hpc
        obtain ⟨⟨v, err⟩, hr, hstep⟩ := bind_eq_some_iff.1 hstep
        cases hstep
        exact h.assigned hf hg himp hpc hr
      · cases hstep
    | spawned | done j => cases hstep
  | wait =>
    rw [Batch.step] at hstep
    split at hstep <;> cases hstep
    rename_i hwg
    refine { h with returned := fun r hr => ?_ }
    cases hr
    exact ⟨rfl, hwg⟩

end

theorem run (hf : f.Lawful Sized entry) {c : Client} (hc : Correlated c) {ls : List BatchLabel}
    (hrun : Lib.run (Batch.step f m reconnect calls) (.start f calls c) ls = some b) :
    Collected f m calls Sized entry b :=
  run_kept (fun _ _ _ hi hs => hi.step hf hs) (.start hf hc) hrun

/-! ## Results -/

theorem all_done (h : Collected f m calls Sized entry b) (hwg : b.wg = 0) {i : Nat} {g : Goroutine}
    (hg : b.goroutines[i]? = some g) : ∃ j, g = .done j := by
  have hsum := List.sum_eq_zero_iff_forall_eq_nat.1 (h.wg.symm.trans hwg)
  have hzero : g.running = 0 := hsum _ (mem_map.2 ⟨g, mem_of_getElem? hg, rfl⟩)
  cases g with
  | spawned | importing j => cases hzero
  | done j => exact ⟨j, rfl⟩

end Collected

variable {m : Msgpack}

/-- An `Import` returns with what its reply decodes to, or with an error of its own. -/
theorem BatchFunc.importResult_cases {Resp R : Type} {f : BatchFunc Resp R} {o : Outcome} {v : Resp}
    {err : Option CallError} (h : f.importResult m o = some (v, err)) :
    (∃ msg, o = .reply msg ∧ Decodes f.unmarshal m msg v err) ∨
      ∃ e, err = some e ∧ e.Frameless := by
  cases o with
  | reply msg =>
    refine .inl ⟨msg, rfl, ?_⟩
    rw [importResult] at h
    rw [Decodes]
    split at h
    · rename_i ht
      cases h
      exact (if_pos ht).mpr rfl
    · rename_i ht
      rw [if_neg ht]
      split at h
      · rename_i hnone
        cases h
        rw [hnone]
      · rename_i resp hresp
        cases h
        rw [hresp]
        exact ⟨rfl, rfl⟩
  | encodeFailed | connectionClosed | writeFailed | contextDone =>
    cases h
    exact .inr ⟨_, rfl, by simp [CallError.Frameless]⟩
  | decodeFailed | abandoned => cases h

/-- The message of a drain is an error. -/
theorem Decodes.connectionLost {Resp : Type} {unmarshal : Bytes → Option Resp} {id : BitVec 64}
    {v : Resp} {err : Option CallError} (h : Decodes unmarshal m (connectionLost id) v err) :
    ∃ e, err = some e ∧ e.Frameless :=
  ⟨_, h, by simp [CallError.Frameless, Go.connectionLost, errorMessage]⟩

namespace Batch
variable {R : Type}

/-- The frame that goroutine `i` has received. -/
def frame (b : Batch R) (i : Nat) : Option Nat :=
  match b.goroutines[i]? with
  | some (.done j) => b.client.calls[j]?.bind fun imp => imp.got.head?.bind Delivery.frame
  | _ => none

theorem frame_holds {b : Batch R} {i k : Nat} (h : b.frame i = some k) :
    ∃ j, b.Imports i j ∧ b.client.Holds j k := by
  unfold frame at h
  split at h
  · rename_i j hg
    obtain ⟨imp, himp, h⟩ := bind_eq_some_iff.1 h
    obtain ⟨d, hd, hk⟩ := bind_eq_some_iff.1 h
    exact ⟨j, ⟨_, hg, rfl⟩, imp, himp, d, .inl (mem_of_head? hd), hk⟩
  · cases h

end Batch

namespace Collected

theorem entry_done (h : Collected f m calls Sized entry b) {i j : Nat} {call : BatchCall} {v : Resp}
    {err : Option CallError} (hcall : calls[i]? = some call)
    (hg : b.goroutines[i]? = some (.done j)) (he : entry b.results i = some (v, err)) :
    b.Entry f.unmarshal m i call v err (b.frame i) := by
  obtain ⟨call', imp, hcall', himp, hk, hp⟩ := h.imports i j ⟨_, hg, rfl⟩
  obtain rfl : call = call' := mem_unique hcall hcall'
  obtain ⟨imp', o, r, himp', hpc, hr, hentry⟩ := h.done i j hg
  obtain rfl : imp = imp' := mem_unique himp himp'
  obtain rfl : r = (v, err) := mem_unique hentry he
  refine ⟨j, imp, hg, himp, hp, ?_⟩
  obtain ⟨msg, rfl, hdec⟩ | herr := BatchFunc.importResult_cases hr
  · obtain rfl | ⟨d, k, hd, hframe, hfirst⟩ := (h.client.traced.each j imp himp).reply hk hpc
    · exact .inr hdec.connectionLost
    · refine .inl ⟨k, msg, ?_, hfirst, hdec⟩
      have hd : imp.got.head? = some d := hd
      simp only [Batch.frame, hg, himp, bind_some, hd, hframe]
  · exact .inr herr

theorem inOrder (h : Collected f m calls Sized entry b) {r : R} (hret : b.returned = some r) :
    Sized r calls.length ∧ b.InOrder f.unmarshal m calls (entry r) := by
  obtain ⟨rfl, hwg⟩ := h.returned r hret
  refine ⟨h.sized, b.frame, fun i call v err hcall he => ?_, fun i i' k hi hi' => ?_⟩
  · have hlt : i < b.goroutines.length := h.length ▸ (lt_of_some hcall)
    obtain ⟨j, hj⟩ := h.all_done hwg (getElem?_eq_getElem hlt)
    have hg := (getElem?_eq_getElem hlt).trans (congrArg some hj)
    exact h.entry_done hcall hg he
  · obtain ⟨j, hij, hk⟩ := Batch.frame_holds hi
    obtain ⟨j', hij', hk'⟩ := Batch.frame_holds hi'
    obtain rfl : j = j' := h.client.unique j j' k hk hk'
    exact h.distinct i i' j hij hij'

end Collected

/-! ## A batch can return -/

/-- The moves that are left to an `Import` at most. -/
def CallPc.rank : CallPc → Nat
  | .allocated => 4
  | .registered => 3
  | .writing _ => 2
  | .waiting => 1
  | _ => 0

/-- An `Import` goes on by itself, to the end of its context at the latest. -/
theorem Call.advance (m : Msgpack) (v : View) {imp : Call} (ha : imp.Answered)
    (hk : imp.kind = .importUnary) (hpc : ∀ o, imp.pc ≠ .returned o) :
    ∃ l imp' e, imp.step m v l = some (imp', e) ∧ e ≠ .unregister ∧ e ≠ .crash ∧
      imp'.pc.rank < imp.pc.rank := by
  cases hp : imp.pc with
  | allocated =>
    have hs : imp.step m v .register = some ({ imp with pc := .registered }, .register) := by
      rw [Call.step, hp]
    exact ⟨_, _, _, hs, by simp, by simp, Nat.lt_succ_self 3⟩
  | registered =>
    have hs : imp.step m v (.prepare true) = some (imp.prepare v true, .quiet) := by
      rw [Call.step, hp]
    refine ⟨_, _, _, hs, by simp, by simp, ?_⟩
    simp only [Call.prepare, hk, if_true]
    split
    · rw [fail_pc]
      exact Nat.zero_lt_succ 2
    · exact Nat.lt_succ_self 2
  | writing conn =>
    have hs : imp.step m v (.write true) =
        some (imp.afterWrite (v.write conn imp.payload true).1,
          (v.write conn imp.payload true).2) := by
      rw [Call.step, hp]
    obtain ⟨hun, hcr⟩ : (v.write conn imp.payload true).2 ≠ .unregister ∧
        (v.write conn imp.payload true).2 ≠ .crash := by
      obtain ⟨-, -, hw⟩ | ⟨-, hw⟩ := v.write_cases conn imp.payload true <;> rw [hw]
      · exact ⟨by simp, by simp⟩
      · exact ⟨by simp, by simp⟩
    refine ⟨_, _, _, hs, hun, hcr, ?_⟩
    simp only [Call.afterWrite, hk]
    split
    · exact Nat.lt_succ_self 1
    · rw [fail_pc]
      exact Nat.zero_lt_succ 1
  | waiting =>
    have hs : imp.step m v .expire = some ({ imp with pc := .returned .contextDone }, .quiet) := by
      simp only [Call.step, Call.expire, hk, hp, map_some]
    exact ⟨_, _, _, hs, by simp, by simp, Nat.zero_lt_succ 0⟩
  | returned o => exact absurd hp (hpc o)
  | opened | delivering | exiting =>
    rw [Answered, hp] at ha
    cases ha

theorem Client.callStep_some (reconnect : Bool) {c : Client} {j : Nat} {imp imp' : Call}
    {l : CallLabel} {e : Effect} (hcrash : c.crashed = false) (hlock : c.locked = false)
    (himp : c.calls[j]? = some imp) (hs : imp.step m c.view l = some (imp', e))
    (hun : e ≠ .unregister) (hcr : e ≠ .crash) :
    ∃ c' imp'', Go.step m reconnect c (.call j l) = some c' ∧ c'.calls[j]? = some imp'' ∧
      imp''.pc = imp'.pc ∧ c'.crashed = false ∧ c'.loop = c.loop := by
  have hj := lt_of_some himp
  have hstep : Go.step m reconnect c (.call j l) = c.apply j imp' e := by
    simp only [Go.step, hcrash, Client.callStep, himp, hs, bind_some, bind_eq_bind,
      Bool.false_eq_true, if_false]
  cases e with
  | quiet | write =>
    exact ⟨_, imp', hstep, getElem?_set_self hj, rfl, hcrash, rfl⟩
  | register =>
    rw [Client.apply, if_neg (Bool.eq_false_iff.1 hlock)] at hstep
    exact ⟨_, _, hstep, getElem?_set_self hj, rfl, hcrash, rfl⟩
  | unregister => exact absurd rfl hun
  | crash => exact absurd rfl hcr

/-- Client `c` is neither crashed nor at the drain of its calls. -/
structure Client.Free (c : Client) : Prop where
  crashed : c.crashed = false
  locked : c.locked = false

/-- Call `j` is an `Import`. -/
structure Client.ImportAt (c : Client) (j : Nat) : Prop where
  free : c.Free
  correlated : Correlated c
  call : ∃ imp, c.calls[j]? = some imp ∧ imp.kind = .importUnary

/-- The moves that are left to call `j` at most. -/
def Client.rank (j : Nat) (c : Client) : Nat := (c.calls[j]?.map fun imp => imp.pc.rank).getD 0

/-- **An `Import` can return**, by its own moves. -/
theorem Client.ImportAt.returns {reconnect : Bool} {c : Client} {j : Nat} (h : c.ImportAt j) :
    Reaches (Go.step m reconnect) (fun l => ∃ cl, l = .call j cl)
      (fun c => c.ImportAt j ∧ ∃ imp o, c.calls[j]? = some imp ∧ imp.pc = .returned o) c := by
  refine Reaches.of_progress (ImportAt · j) (Client.rank j) (fun c h => ?_) h
  obtain ⟨imp, himp, hk⟩ := h.call
  by_cases hpc : ∃ o, imp.pc = .returned o
  · obtain ⟨o, hpc⟩ := hpc
    exact .inl ⟨h, imp, o, himp, hpc⟩
  · have ha := (h.correlated.traced.each j imp himp).answered hk
    obtain ⟨l, imp', e, hs, hun, hcr, hrank⟩ :=
      Call.advance m c.view ha hk fun o ho => hpc ⟨o, ho⟩
    obtain ⟨c', imp'', hc', himp'', hpc'', hcrash, hloop⟩ :=
      callStep_some reconnect h.free.crashed h.free.locked himp hs hun hcr
    have hlock : c'.locked = false := by
      rw [locked, hloop]
      exact h.free.locked
    obtain ⟨imp₁, himp₁, hkind, -⟩ := h.correlated.kept hc' himp
    refine .inr (.step_one hc' ⟨l, rfl⟩ ⟨⟨⟨hcrash, hlock⟩, h.correlated.step hc', ?_⟩, ?_⟩)
    · exact ⟨imp₁, himp₁, hkind.trans hk⟩
    · rw [rank, rank, himp'', himp]
      show imp''.pc.rank < imp.pc.rank
      rw [hpc'']
      exact hrank

theorem BatchFunc.importResult_some {Resp R : Type} (f : BatchFunc Resp R) (m : Msgpack)
    {imp : Call} {o : Outcome} (ha : imp.Answered) (hpc : imp.pc = .returned o) :
    ∃ r, f.importResult m o = some r := by
  rw [Call.Answered, hpc] at ha
  cases o with
  | reply msg =>
    rw [importResult]
    split
    · exact ⟨_, rfl⟩
    · split
      · exact ⟨_, rfl⟩
      · exact ⟨_, rfl⟩
  | decodeFailed | abandoned => cases ha
  | _ => exact ⟨_, rfl⟩

theorem Batch.step_assign {i j : Nat} {imp : Call} {o : Outcome} {v : Resp} {err : Option CallError}
    (hi : b.goroutines[i]? = some (.importing j)) (himp : b.client.calls[j]? = some imp)
    (hpc : imp.pc = .returned o) (hr : f.importResult m o = some (v, err)) :
    b.step f m reconnect calls (.assign i) = some
      { b with
        results := f.assign b.results i v err
        wg := b.wg - 1
        goroutines := b.goroutines.set i (.done j) } := by
  simp only [Batch.step, Batch.assign, hi, himp, hpc, hr, bind_some, bind_eq_bind]
  rfl

namespace Collected

theorem lift {Q : Client → Prop} {j : Nat} {c : Client}
    (hr : Reaches (Go.step m reconnect) (fun l => ∃ cl, l = .call j cl) Q c) :
    ∀ {b : Batch R}, Collected f m calls Sized entry b → b.client = c →
      Reaches (Batch.step f m reconnect calls) BatchLabel.Own
        (fun b' => ∃ c', b' = { b with client := c' } ∧ Collected f m calls Sized entry b' ∧
          Q c') b := by
  induction hr with
  | here hq =>
    intro b h hb
    subst hb
    exact .here ⟨b.client, rfl, h, hq⟩
  | @next c c₁ l hs hl _ ih =>
    intro b h hb
    subst hb
    obtain ⟨cl, rfl⟩ := hl
    have hb : b.step f m reconnect calls (.client (.call j cl)) = some { b with client := c₁ } := by
      rw [Batch.step, hs]
      rfl
    exact .next hb trivial ((ih (h.client_step hs) rfl).bind fun b' hb' => .here hb')

section
variable (h : Collected f m calls Sized entry b) (hf : f.Lawful Sized entry) (hfree : b.client.Free)
include h hf hfree

theorem finish (hwg : b.wg ≠ 0) {i j : Nat} (hi : b.goroutines[i]? = some (.importing j)) :
    Reaches (Batch.step f m reconnect calls) BatchLabel.Own
      (fun b' => (Collected f m calls Sized entry b' ∧ b'.client.Free) ∧ b'.wg < b.wg) b := by
  obtain ⟨-, imp, -, himp, hk, -⟩ := h.imports i j ⟨_, hi, rfl⟩
  have hat : b.client.ImportAt j := ⟨hfree, h.client, imp, himp, hk⟩
  refine (lift hat.returns h rfl).bind ?_
  rintro _ ⟨c', rfl, h', hat', imp', o, himp', hpc'⟩
  obtain ⟨imp₀, himp₀, hk₀⟩ := hat'.call
  obtain rfl : imp' = imp₀ := mem_unique himp' himp₀
  have ha := (hat'.correlated.traced.each j imp' himp').answered hk₀
  obtain ⟨⟨v, err⟩, hr⟩ := f.importResult_some m ha hpc'
  have hs : Batch.step f m reconnect calls { b with client := c' } (.assign i) = some
      { b with
        client := c'
        results := f.assign b.results i v err
        wg := b.wg - 1
        goroutines := b.goroutines.set i (.done j) } :=
    Batch.step_assign hi himp' hpc' hr
  exact .step_one hs trivial ⟨⟨h'.assigned hf hi himp' hpc' hr, hat'.free⟩, Nat.sub_one_lt hwg⟩

theorem progress (hwg : b.wg ≠ 0) :
    Reaches (Batch.step f m reconnect calls) BatchLabel.Own
      (fun b' => (Collected f m calls Sized entry b' ∧ b'.client.Free) ∧ b'.wg < b.wg) b := by
  obtain ⟨n, hn, hpos⟩ := List.sum_pos_iff_exists_pos_nat.1 (h.wg ▸ Nat.pos_of_ne_zero hwg)
  obtain ⟨g, hg, rfl⟩ := mem_map.1 hn
  obtain ⟨i, hi⟩ := mem_iff_getElem?.1 hg
  cases g with
  | spawned =>
    have hlt : i < calls.length := h.length ▸ (lt_of_some hi)
    obtain ⟨call, hcall⟩ : ∃ call, calls[i]? = some call := ⟨_, getElem?_eq_getElem hlt⟩
    have hs : b.step f m reconnect calls (.call i) = some
        { b with
          client := b.client.startCall .importUnary call.func call.args
          goroutines := b.goroutines.set i (.importing b.client.calls.length) } := by
      simp only [Batch.step, Batch.call, hi, hcall, Go.step, hfree.crashed, Bool.false_eq_true,
        if_false, map_some]
    have hi' : (b.goroutines.set i (.importing b.client.calls.length))[i]? =
        some (.importing b.client.calls.length) :=
      set_of_some hi
    exact .next hs trivial ((h.step hf hs).finish hf ⟨hfree.crashed, hfree.locked⟩ hwg hi')
  | importing j => exact h.finish hf hfree hwg hi
  | done j => exact absurd hpos (Nat.lt_irrefl 0)

end

end Collected

/-- A batch of two calls. -/
def twoCalls : List BatchCall := [⟨"f", []⟩, ⟨"g", []⟩]

end Callwire.Go
