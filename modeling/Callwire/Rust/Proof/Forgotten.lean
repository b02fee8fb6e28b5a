import Callwire.Lib.Transition
import Callwire.Rust.Proof.ActorStep

/-!
# Streams that are forgotten

The pump reads a stream's channel until `try_recv` finds it empty and then asks `is_closed`. What
the owner sends between the two and drops stays in a channel that the pump takes off its map. The
ids in `ids_to_remove` have empty channels without a sender (`Retired`) as long as no owner drops
its half there with a payload in the channel.
-/

namespace Callwire.Rust

open Lib List

/-- The ids the pump is about to take off a map. -/
def Pc.leaving (side : Side) : Pc → List (BitVec 64)
  | .pump s _ gone | .check s _ _ gone => if s = side then gone else []
  | _ => []

/-- An owner that drops its half between `try_recv` and `is_closed` leaves an empty channel. -/
def DropsDrained (a : Actor) (l : Label) : Prop :=
  ∀ ch side id todo gone, l = .dropStream ch → a.pc = .check side id todo gone →
    (a.streams side).lookup id = some ch → a.queueOf ch = []

/-- The channel is empty and nobody can send to it. -/
def Actor.Dead (a : Actor) (ch : Nat) : Prop :=
  ∃ c, a.chans[ch]? = some c ∧ c.owner = .dropped ∧ c.queue = []

/-! ## The invariant -/

structure Retired (a : Actor) : Prop where
  check : ∀ side id todo gone ch c, a.pc = .check side id todo gone →
    (a.streams side).lookup id = some ch → a.chans[ch]? = some c → c.owner = .dropped → c.queue = []
  gone : ∀ side, ∀ id ∈ a.pc.leaving side, ∀ ch, (a.streams side).lookup id = some ch → a.Dead ch

theorem Retired.init : Retired .init where
  check _ _ _ _ _ _ h := nomatch h
  gone _ _ h := nomatch h

section
variable {reconnect : Bool} {a a' : Actor} {l : Label} {ch : Nat} {id : BitVec 64} {side : Side}

theorem Retired.of_pc (hc : ∀ side id todo gone, a.pc ≠ .check side id todo gone)
    (hg : ∀ side, a.pc.leaving side = []) : Retired a where
  check side id todo gone _ _ h := absurd h (hc side id todo gone)
  gone side id h := by
    rw [hg side] at h
    cases h

theorem Retired.of_stop (a : Actor) : Retired a.stop := by
  obtain ⟨replies, spawned, he⟩ := a.stop_eq
  rw [he]
  exact .of_pc (fun _ _ _ _ => nofun) fun _ => rfl

theorem Retired.of_reconnectOrStop (a : Actor) : Retired (a.reconnectOrStop reconnect) := by
  rcases a.reconnectOrStop_cases reconnect with he | he <;> rw [he]
  · exact .of_pc (fun _ _ _ _ => nofun) fun _ => rfl
  · exact .of_stop a

theorem Retired.of_leavePump (a : Actor) (side : Side) (gone : List (BitVec 64)) :
    Retired (a.leavePump side gone) := by
  cases side <;> exact .of_pc (fun _ _ _ _ => nofun) fun _ => rfl

theorem Retired.chans {chans : List Chan} (h : Retired a)
    (hc : ∀ ch c', chans[ch]? = some c' → c'.owner = .dropped →
      (∃ side id todo gone, a.pc = .check side id todo gone ∧
        (a.streams side).lookup id = some ch) →
      c'.queue = [] ∨ ∃ c, a.chans[ch]? = some c ∧ c.owner = .dropped ∧ c'.queue = c.queue)
    (hd : ∀ ch, a.Dead ch → Actor.Dead { a with chans } ch) : Retired { a with chans } where
  check side id todo gone ch c' hpc hl hch ho := by
    rcases hc ch c' hch ho ⟨side, id, todo, gone, hpc, hl⟩ with hq | ⟨c, hcc, hco, hq⟩
    · exact hq
    · exact hq.trans (h.check side id todo gone ch c hpc hl hcc hco)
  gone side id hm ch hl := hd ch (h.gone side id hm ch hl)

theorem Actor.Dead.modify {ch' : Nat} {f : Chan → Chan} (h : a.Dead ch')
    (hf : ∀ c, a.chans[ch]? = some c → ch' = ch → (f c).owner = .dropped ∧ (f c).queue = []) :
    Actor.Dead { a with chans := a.chans.modify ch f } ch' := by
  obtain ⟨c, hc, ho, hq⟩ := h
  by_cases hch : ch' = ch
  · subst hch
    exact ⟨f c, by rw [getElem?_modify_eq, hc]; rfl, hf c hc rfl⟩
  · exact ⟨c, (getElem?_modify_ne _ _ (Ne.symm hch)).trans hc, ho, hq⟩

theorem Actor.Dead.queueOf (h : a.Dead ch) : a.queueOf ch = [] := by
  obtain ⟨c, hc, -, hq⟩ := h
  rw [Actor.queueOf, hc]
  exact hq

theorem isClosed_lookup (hl : (a.streams side).lookup id = some ch)
    (h : a.isClosed side id = true) : ∃ c, a.chans[ch]? = some c ∧ c.owner = .dropped := by
  rw [Actor.isClosed, hl, Option.bind_some] at h
  cases hc : a.chans[ch]? with
  | none =>
    rw [hc] at h
    cases h
  | some c =>
    rw [hc] at h
    exact ⟨c, rfl, of_decide_eq_true h⟩

/-- **Every step keeps the invariant**, if owners drop drained channels. -/
theorem Retired.step (h : Retired a) (hok : DropsDrained a l)
    (hstep : Callwire.Rust.step reconnect a l = some a') : Retired a' := by
  cases step_move hstep with
  | @submit r =>
    have hnew : Retired { a with chans := a.chans ++ r.chans } := by
      refine h.chans (fun ch c' hc' ho _ => ?_) (fun ch hd => ?_)
      · by_cases hlt : ch < a.chans.length
        · rw [getElem?_append_left hlt] at hc'
          exact .inr ⟨c', hc', ho, rfl⟩
        · rw [getElem?_append_right (Nat.le_of_not_lt hlt)] at hc'
          exact .inl (r.chans_empty c' (mem_of_getElem? hc'))
      · obtain ⟨c, hc, hd⟩ := hd
        exact ⟨c, (getElem?_append_left (lt_of_some hc)).trans hc, hd⟩
    exact ⟨hnew.check, hnew.gone⟩
  | @send _ ch payload owner c hl hc hr ho =>
    refine h.chans (fun ch' c' hc' ho' hpc => ?_) (fun ch' hd => ?_)
    · rcases set_cases hc hc' with ⟨rfl, rfl⟩ | ⟨-, hc'⟩
      · exact absurd ho' (Label.sends_cases hl).2
      · exact .inr ⟨c', hc', ho', rfl⟩
    · obtain ⟨d, hdc, hdo, hdq⟩ := hd
      refine ⟨d, (getElem?_set_ne ?_).trans hdc, hdo, hdq⟩
      rintro rfl
      cases hc.symm.trans hdc
      cases ho.symm.trans hdo
  | @dropStream ch =>
    refine h.chans (fun ch' c' hc' ho hpc => ?_) (fun ch' hd => ?_)
    · obtain ⟨side, id, todo, gone, hpc, hl⟩ := hpc
      by_cases hch : ch' = ch
      · subst hch
        rw [getElem?_modify_eq] at hc'
        obtain ⟨c, hc, rfl⟩ := Option.map_eq_some_iff.1 hc'
        have hq := hok ch' side id todo gone rfl hpc hl
        rw [Actor.queueOf, hc] at hq
        exact .inl hq
      · rw [getElem?_modify_ne _ _ (Ne.symm hch)] at hc'
        exact .inr ⟨c', hc', ho, rfl⟩
    · refine hd.modify fun c hc hch => ?_
      subst hch
      obtain ⟨d, hdc, -, hdq⟩ := hd
      cases hc.symm.trans hdc
      exact ⟨rfl, hdq⟩
  | @skip side => cases side <;> exact .of_pc (fun _ _ _ _ he => by cases he) fun _ => rfl
  | @enter side =>
    refine .of_pc (by simp) fun s => ?_
    rw [Pc.leaving]
    split <;> rfl
  | call | exportStream | importBidi | delivered | undelivered | connected =>
    exact .of_pc (by simp) fun _ => rfl
  | leave | unpumped => exact .of_leavePump ..
  | shutdown | noClients => exact .of_stop _
  | callFailed | exportFailed | lost => exact .of_reconnectOrStop _
  | @message n msg reader =>
    obtain ⟨pc, pending, replies, he, hpc⟩ := Actor.handleFrame_eq { a with reader } msg
    rw [he]
    rcases hpc with rfl | ⟨tx, rfl⟩ <;> exact .of_pc (by simp) fun _ => rfl
  | miss hpc hs =>
    refine ⟨by simp, fun side id hm => ?_⟩
    have := h.gone side id
    rw [hpc] at this
    exact this hm
  | @empty side id todo gone ok ch hpc hs hq =>
    refine ⟨fun side' id' todo' gone' ch' c hc hl hch _ => ?_, fun side id hm => ?_⟩
    · cases hc
      cases hs.symm.trans hl
      rwa [Actor.queueOf, hch] at hq
    · have := h.gone side id
      rw [hpc] at this
      exact this hm
  | @pumped side id todo gone ch conn payload queue hpc hs hq hw =>
    refine ⟨by simp [hpc], fun side id hm ch' hl => ?_⟩
    have hd := h.gone side id hm ch' hl
    refine hd.modify fun c hc hch => ?_
    subst hch
    cases hq.symm.trans hd.queueOf
  | @check side id todo gone ok hpc =>
    refine ⟨(fun _ _ _ _ _ _ hc => by cases hc), fun s k hm ch hl => ?_⟩
    have hk : k ∈ if side = s then (if a.isClosed side id then gone ++ [id] else gone) else [] := hm
    have hgone : k ∈ (if side = s then gone else []) → a.Dead ch := by
      intro hk
      refine h.gone s k ?_ ch hl
      rw [hpc]
      exact hk
    split at hk
    · rename_i hside
      subst hside
      rw [if_pos rfl] at hgone
      split at hk
      · rename_i hcl
        rcases mem_concat_cases hk with hk | hk
        · exact hgone hk
        · cases hk
          obtain ⟨c, hc, ho⟩ := isClosed_lookup hl hcl
          exact ⟨c, hc, ho, h.check side _ todo gone ch c hpc hl hc ho⟩
      · exact hgone hk
    · cases hk
  | _ => exact ⟨h.check, h.gone⟩

/-- A stream that the pump takes off its map is one of `ids_to_remove`. -/
theorem mem_of_leavePump {s : Side} {gone : List (BitVec 64)}
    (h : (a.streams s).lookup id = some ch)
    (hn : ((a.leavePump side gone).streams s).lookup id = none) : s = side ∧ id ∈ gone := by
  cases side <;> cases s
  · exact ⟨rfl, by_contra fun hg => nomatch (lookup_eraseAll h hg).symm.trans hn⟩
  · cases h.symm.trans hn
  · cases h.symm.trans hn
  · exact ⟨rfl, by_contra fun hg => nomatch (lookup_eraseAll h hg).symm.trans hn⟩

theorem lookup_insert_ne_none {m : IdMap Nat} {k : BitVec 64} {rx : Nat}
    (h : m.lookup id = some ch) : (m.insert k rx).lookup id ≠ none := by
  by_cases hk : id = k
  · rw [hk, AList.lookup_insert]
    exact nofun
  · rw [AList.lookup_insert_ne hk, h]
    exact nofun

theorem streams_reconnectOrStop (h : (a.reconnectOrStop reconnect).pc ≠ .stopped) :
    (a.reconnectOrStop reconnect).streams side = a.streams side := by
  rcases a.reconnectOrStop_cases reconnect with he | he <;> rw [he] at h ⊢
  · rfl
  · exact absurd a.stop_pc h

theorem streams_disconnect (a : Actor) (side : Side) :
    a.disconnect.streams side = a.streams side := by
  obtain ⟨replies, spawned, he⟩ := a.disconnect_eq
  rw [he]
  rfl

/-- Only the pump takes streams off a map, and only those that are gone. -/
theorem Retired.forgets (h : Retired a) (hstep : Callwire.Rust.step reconnect a l = some a')
    (hst : a'.pc ≠ .stopped) (hl : (a.streams side).lookup id = some ch)
    (hn : (a'.streams side).lookup id = none) : a.queueOf ch = [] := by
  cases step_move hstep with
  | leave hpc =>
    obtain ⟨rfl, hm⟩ := mem_of_leavePump hl hn
    refine (h.gone side id ?_ ch hl).queueOf
    rw [hpc, Pc.leaving, if_pos rfl]
    exact hm
  | @unpumped side' _ _ gone _ ch' _ queue hpc =>
    obtain ⟨rfl, hm⟩ := mem_of_leavePump (a := { a with
      chans := a.chans.modify ch' fun c => { c with queue }, writer := none }) hl hn
    refine (h.gone side id ?_ ch hl).queueOf
    rw [hpc, Pc.leaving, if_pos rfl]
    exact hm
  | shutdown | noClients => exact absurd (Actor.stop_pc _) hst
  | @exportStream cmds k payload rx tx conn =>
    cases side
    · exact absurd hn (lookup_insert_ne_none hl)
    · cases hl.symm.trans hn
  | @importBidi cmds k payload rx tx conn =>
    cases side
    · cases hl.symm.trans hn
    · exact absurd hn (lookup_insert_ne_none hl)
  | callFailed | lost =>
    rw [streams_reconnectOrStop hst, streams_disconnect] at hn
    cases hl.symm.trans hn
  | @exportFailed cmds =>
    rw [streams_reconnectOrStop hst] at hn
    have hn : ((Actor.disconnect { a with cmds }).streams side).lookup id = none := hn
    rw [streams_disconnect] at hn
    cases hl.symm.trans hn
  | @message n msg reader =>
    obtain ⟨pc, pending, replies, he, -⟩ := Actor.handleFrame_eq { a with reader } msg
    rw [he] at hn
    cases hl.symm.trans hn
  | _ => cases hl.symm.trans hn

end

/-! ## Runs -/

/-- **A stream is drained before it is forgotten**: in every run in which no owner drops its half of
a channel with a payload between `try_recv` and `is_closed`, a stream that the loop takes off its
map has an empty channel. -/
theorem forgotten_drained {reconnect : Bool} {ls : List Label} {a : Actor}
    (hok : Along (step reconnect) DropsDrained .init ls)
    (hrun : run (step reconnect) .init ls = some a) :
    ∀ l a', step reconnect a l = some a' → a'.pc ≠ .stopped →
      ∀ side id ch, (a.streams side).lookup id = some ch → (a'.streams side).lookup id = none →
        a.queueOf ch = [] := by
  have h : Retired a := run_invariant (fun _ _ _ => Retired.step) .init hok hrun
  intro l a' hstep hst side id ch hl hn
  exact h.forgets hstep hst hl hn

/-- A stream is opened and polled, and its owner finishes before `is_closed`. -/
def finishedLabels : List Label :=
  toSelect ++ [.submit (.exportStream 1 "f"), .command true, .enter [1], .pump true,
    .closeAndRecv 0, .dropStream 0, .pump true]

/-- **The `stream_close` of a finished stream is lost**: the pump forgets the stream with the
payload in its channel, on a connection that is up. -/
theorem forgotten_undrained : ∃ a a', run (step true) .init finishedLabels = some a ∧
    step true a (.pump true) = some a' ∧ a'.writer = some 0 ∧ a'.pc ≠ .stopped ∧
    (a.streams .exports).lookup 1 = some 0 ∧ (a'.streams .exports).lookup 1 = none ∧
    a.queueOf 0 = [packStreamClose 1] := by
  exact ⟨_, _, rfl, rfl, rfl, nofun, rfl, rfl, rfl⟩

/-- A stream whose owner finishes before it is polled. -/
def earlyLabels : List Label :=
  (toSelect ++ [.submit (.exportStream 1 "f"), .command true, .closeAndRecv 0]) ++
    .dropStream 0 :: [.enter [1], .pump true, .pump true, .pump true]

def earlyActor : Actor where
  pc := .pump .exports [] [1]
  writer := some 0
  pending := AList.insert 1 (.unary 0) ∅
  exportStreams := AList.insert 1 0 ∅
  bidiStreams := ∅
  cmds := []
  clients := true
  reader := []
  readers := [true]
  chans := [⟨1, .exports, [], .dropped⟩]
  replies := [⟨[], 0, false⟩]
  spawned := []
  wire := [⟨0, packRequest 1 "f" .nil, some 0⟩, ⟨0, packStreamClose 1, none⟩]

theorem forgotten_drained_early : ∃ a', run (step true) .init earlyLabels = some earlyActor ∧
    step true earlyActor (.pump true) = some a' ∧ (earlyActor.streams .exports).lookup 1 = some 0 ∧
    (a'.streams .exports).lookup 1 = none ∧ earlyActor.queueOf 0 = [] := by
  have hok : Along (step true) DropsDrained .init earlyLabels := by
    refine .append (.of_labels (fun l hl a ch _ _ _ _ he => ?_) _) rfl
      (.cons nofun rfl (.of_labels (fun l hl a ch _ _ _ _ he => ?_) _))
    · subst he
      simp [toSelect] at hl
    · subst he
      simp at hl
  exact ⟨_, rfl, rfl, rfl, rfl, forgotten_drained hok rfl (.pump true) _ rfl nofun .exports 1 0 rfl
    rfl⟩

end Callwire.Rust
