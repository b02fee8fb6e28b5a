import Mathlib.Logic.Relation

/-!
# Labelled systems and their runs

A system is a step function `step : S → L → Option S`: the label says which party moves and what its
environment answers, `none` that the move is not enabled. `run step s ls` follows the labels `ls`
and `Along step Ok s ls` says that every step of the run meets the condition `Ok` on the state
before it. An invariant of the steps that meet a condition is an invariant of the runs that do
(`run_invariant`); a simulation of the steps is one of the runs, with the same observations
(`run_simulation`) or with the same labels (`run_stutter`). `Reaches step Ok Q s` says that moves
with labels in `Ok` lead from `s` to a state with `Q`; it is shown by a measure that some moves
lower (`Reaches.of_progress`). `trace` is the record of a run, given the events of a step.
-/

namespace Lib

open List

section
variable {S L : Type} (step : S → L → Option S)

/-- The state after the labels `ls`. -/
def run : S → List L → Option S
  | s, [] => some s
  | s, l :: ls => (step s l).bind fun s' => run s' ls

/-- Every step of the run meets `Ok`. -/
def Along (Ok : S → L → Prop) : S → List L → Prop
  | _, [] => True
  | s, l :: ls => Ok s l ∧ ∀ s', step s l = some s' → Along Ok s' ls

variable {step} {Ok : S → L → Prop}

theorem run_cons {s s' : S} {l : L} {ls : List L} (h : run step s (l :: ls) = some s') :
    ∃ s₁, step s l = some s₁ ∧ run step s₁ ls = some s' := by
  rw [run, Option.bind_eq_some_iff] at h
  exact h

theorem run_singleton {s s' : S} {l : L} (h : step s l = some s') : run step s [l] = some s' := by
  rw [run, h]
  rfl

theorem run_append : ∀ (ls ls' : List L) (s : S),
    run step s (ls ++ ls') = (run step s ls).bind fun s' => run step s' ls'
  | [], _, _ => rfl
  | l :: ls, ls', s => by
    rw [cons_append, run, run]
    cases step s l with
    | none => rfl
    | some s₁ => exact run_append ls ls' s₁

/-- **The invariant rule.** -/
theorem run_invariant {Inv : S → Prop}
    (hstep : ∀ s l s', Inv s → Ok s l → step s l = some s' → Inv s') :
    ∀ {ls : List L} {s s' : S}, Inv s → Along step Ok s ls → run step s ls = some s' → Inv s'
  | [], s, s', hi, _, h => by
    cases h
    exact hi
  | l :: ls, s, s', hi, ha, h => by
    obtain ⟨s₁, h₁, h₂⟩ := run_cons h
    exact run_invariant hstep (hstep s l s₁ hi ha.1 h₁) (ha.2 s₁ h₁) h₂

theorem Along.cons {s s₁ : S} {l : L} {ls : List L} (hok : Ok s l) (hs : step s l = some s₁)
    (h : Along step Ok s₁ ls) : Along step Ok s (l :: ls) := by
  refine ⟨hok, fun s' hs' => ?_⟩
  obtain rfl : s₁ = s' := Option.mem_unique hs hs'
  exact h

theorem Along.append {s₁ : S} {ls' : List L} : ∀ {ls : List L} {s : S},
    Along step Ok s ls → run step s ls = some s₁ → Along step Ok s₁ ls' →
      Along step Ok s (ls ++ ls')
  | [], _, _, h, h' => by
    cases h
    exact h'
  | _ :: _, _, ha, h, h' => by
    obtain ⟨_, h₁, h₂⟩ := run_cons h
    exact .cons ha.1 h₁ (.append (ha.2 _ h₁) h₂ h')

theorem Along.imp {Ok' : S → L → Prop} (h : ∀ s l, Ok s l → Ok' s l) : ∀ {ls : List L} {s : S},
    Along step Ok s ls → Along step Ok' s ls
  | [], _, _ => trivial
  | _ :: _, _, ha => ⟨h _ _ ha.1, fun s' hs => (ha.2 s' hs).imp h⟩

/-- A condition that the labels alone ensure. -/
theorem Along.of_labels : ∀ {ls : List L}, (∀ l ∈ ls, ∀ s, Ok s l) →
    ∀ s : S, Along step Ok s ls
  | [], _, _ => trivial
  | l :: _, h, s => ⟨h l (mem_cons_self ..) s, fun s' _ =>
      Along.of_labels (fun l hl => h l (mem_cons_of_mem _ hl)) s'⟩

theorem Along.trivial (ls : List L) (s : S) : Along step (fun _ _ => True) s ls :=
  Along.of_labels (fun _ _ _ => True.intro) s

/-- **The invariant rule** for what every step keeps. -/
theorem run_kept {Inv : S → Prop} (hstep : ∀ s l s', Inv s → step s l = some s' → Inv s')
    {ls : List L} {s s' : S} (hi : Inv s) (h : run step s ls = some s') : Inv s' :=
  run_invariant (fun s l s' hi _ => hstep s l s' hi) hi (Along.trivial ls s) h

/-! ## Simulation -/

section
variable {S' L' O : Type} {step' : S' → L' → Option S'} {obs : L → List O} {obs' : L' → List O}

/-- **The simulation rule**: if each step is answered by steps with the same observations, then so
is each run. -/
theorem run_simulation (Sim : S → S' → Prop)
    (hstep : ∀ s t l s₁, Sim s t → step s l = some s₁ →
      ∃ ls' t₁, run step' t ls' = some t₁ ∧ ls'.flatMap obs' = obs l ∧ Sim s₁ t₁) :
    ∀ (ls : List L) (s s₁ : S) (t : S'), Sim s t → run step s ls = some s₁ →
      ∃ ls' t₁, run step' t ls' = some t₁ ∧ ls'.flatMap obs' = ls.flatMap obs ∧ Sim s₁ t₁
  | [], s, s₁, t, hsim, h => by
    cases h
    exact ⟨[], t, rfl, rfl, hsim⟩
  | l :: ls, s, s₂, t, hsim, h => by
    obtain ⟨s₁, h₁, h₂⟩ := run_cons h
    obtain ⟨ls₁, t₁, hrun₁, hobs₁, hsim₁⟩ := hstep s t l s₁ hsim h₁
    obtain ⟨ls₂, t₂, hrun₂, hobs₂, hsim₂⟩ := run_simulation Sim hstep ls s₁ s₂ t₁ hsim₁ h₂
    refine ⟨ls₁ ++ ls₂, t₂, ?_, ?_, hsim₂⟩
    · rw [run_append, hrun₁]
      exact hrun₂
    · rw [flatMap_append, flatMap_cons, hobs₁, hobs₂]

/-- **The simulation rule with the same labels**: if each step is answered by a step with its label,
or by none where that label is hidden, then a run is answered by one with the same labels but some
of the hidden ones. -/
theorem run_stutter {step' : S' → L → Option S'} (Sim : S → S' → Prop) (hidden : L → Bool)
    {Ok : S → L → Prop} {Ok' : S' → L → Prop}
    (hstep : ∀ s t l s₁, Sim s t → Ok s l → step s l = some s₁ →
      (∃ t₁, step' t l = some t₁ ∧ Ok' t l ∧ Sim s₁ t₁) ∨ (hidden l = true ∧ Sim s₁ t)) :
    ∀ (ls : List L) (s s₁ : S) (t : S'), Sim s t → Along step Ok s ls → run step s ls = some s₁ →
      ∃ ls' t₁, ls'.Sublist ls ∧ ls'.filter (!hidden ·) = ls.filter (!hidden ·) ∧
        run step' t ls' = some t₁ ∧ Along step' Ok' t ls' ∧ Sim s₁ t₁
  | [], s, s₁, t, hsim, _, h => by
    cases h
    exact ⟨[], t, Sublist.refl _, rfl, rfl, trivial, hsim⟩
  | l :: ls, s, s₂, t, hsim, hok, h => by
    obtain ⟨s₁, h₁, h₂⟩ := run_cons h
    rcases hstep s t l s₁ hsim hok.1 h₁ with ⟨t₁, ht, hok', hsim₁⟩ | ⟨hl, hsim₁⟩
    · obtain ⟨ls', t₂, hsub, hfilter, hrun, halong, hsim₂⟩ :=
        run_stutter Sim hidden hstep ls s₁ s₂ t₁ hsim₁ (hok.2 s₁ h₁) h₂
      refine ⟨l :: ls', t₂, hsub.cons_cons l, ?_, ?_, .cons hok' ht halong, hsim₂⟩
      · rw [filter_cons, filter_cons, hfilter]
      · rw [run, ht]
        exact hrun
    · obtain ⟨ls', t₂, hsub, hfilter, hrun, halong, hsim₂⟩ :=
        run_stutter Sim hidden hstep ls s₁ s₂ t hsim₁ (hok.2 s₁ h₁) h₂
      refine ⟨ls', t₂, hsub.cons l, ?_, hrun, halong, hsim₂⟩
      rw [filter_cons, hl, hfilter]
      rfl

end

/-! ## What can be reached -/

section
variable (step) (Ok : L → Prop) (Q : S → Prop)

/-- Moves with labels in `Ok` can lead to a state with `Q`. -/
inductive Reaches : S → Prop
  | here {s : S} (h : Q s) : Reaches s
  | next {s s' : S} {l : L} (hs : step s l = some s') (hl : Ok l) (h : Reaches s') : Reaches s

end

namespace Reaches
variable {Ok : L → Prop} {Q Q' : S → Prop}

theorem bind {s : S} (h : Reaches step Ok Q s) (k : ∀ s', Q s' → Reaches step Ok Q' s') :
    Reaches step Ok Q' s := by
  induction h with
  | here hq => exact k _ hq
  | next hs hl _ ih => exact .next hs hl ih

theorem step_one {s s' : S} {l : L} (hs : step s l = some s') (hl : Ok l) (h : Q s') :
    Reaches step Ok Q s := .next hs hl (.here h)

/-- **The progress rule**: moves that keep `Inv` and lower `rank` until `Q` holds lead to `Q`. -/
theorem of_progress (Inv : S → Prop) (rank : S → Nat)
    (hprogress : ∀ s, Inv s → Q s ∨ Reaches step Ok (fun s' => Inv s' ∧ rank s' < rank s) s)
    {s : S} (hi : Inv s) : Reaches step Ok Q s := by
  induction hn : rank s using Nat.strongRecOn generalizing s with
  | _ n ih =>
    rcases hprogress s hi with hq | h
    · exact .here hq
    · refine h.bind fun s' hs' => ?_
      exact ih (rank s') (hn ▸ hs'.2) hs'.1 rfl

end Reaches

/-! ## Traces -/

section
variable {E : Type} (step) (events : S → L → List E)

/-- The events of a run, oldest first. -/
def trace : S → List L → List E
  | _, [] => []
  | s, l :: ls => events s l ++ ((step s l).map fun s' => trace s' ls).getD []

variable {step events}

/-- **The invariant rule with a record**: what every step keeps, of the state and the events so
far, holds of the state and the trace of a run. -/
theorem trace_invariant {Inv : List E → S → Prop} {Ok : S → L → Prop}
    (hstep : ∀ es s l s', Inv es s → Ok s l → step s l = some s' → Inv (es ++ events s l) s') :
    ∀ (ls : List L) (es : List E) (s s' : S), Inv es s → Along step Ok s ls →
      run step s ls = some s' → Inv (es ++ trace step events s ls) s'
  | [], es, s, s', hi, _, h => by
    cases h
    rwa [trace, append_nil]
  | l :: ls, es, s, s', hi, ha, h => by
    obtain ⟨s₁, h₁, h₂⟩ := run_cons h
    have := trace_invariant hstep ls (es ++ events s l) s₁ s' (hstep es s l s₁ hi ha.1 h₁)
      (ha.2 s₁ h₁) h₂
    rw [append_assoc] at this
    rw [trace, h₁]
    exact this

/-- Events that the labels alone determine. -/
theorem trace_of_labels {ev : L → List E} : ∀ {ls : List L} {s s' : S}, run step s ls = some s' →
    trace step (fun _ l => ev l) s ls = ls.flatMap ev
  | [], _, _, _ => rfl
  | l :: ls, s, s', h => by
    obtain ⟨s₁, h₁, h₂⟩ := run_cons h
    rw [trace, h₁, flatMap_cons, ← trace_of_labels h₂]
    rfl

/-- **The invariant rule with the history**: the record is that of the labels. -/
theorem history_invariant {Inv : List L → S → Prop} {Ok : S → L → Prop} {s s' : S} {ls : List L}
    (hstep : ∀ ls s l s', Inv ls s → Ok s l → step s l = some s' → Inv (ls ++ [l]) s')
    (hinit : Inv [] s) (hok : Along step Ok s ls) (hrun : run step s ls = some s') : Inv ls s' := by
  have h : Inv ([] ++ trace step (fun _ l => [l]) s ls) s' :=
    trace_invariant hstep ls [] s s' hinit hok hrun
  rwa [trace_of_labels hrun, flatMap_singleton', nil_append] at h

end

end

end Lib
