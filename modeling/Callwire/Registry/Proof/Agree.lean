import Callwire.Registry.Model

/-!
# The registries agree

`Spec.step` is what a registry is for: its state is the registrations so far, and `discover` gives
the distinct addresses registered under the name, in the order of their first registration. Each
implementation simulates it (`replies_iff`): its store maps a name to these addresses, and has no
entry for a name without any (`Holds`). The TypeScript store does so for the names that are no
member of `Object.prototype` (`registries_agree`); for those it throws, or gives what is inherited
(`inherited_names`).
-/

namespace Callwire.Registry

open List

/-! ## The specification -/

namespace Spec

/-- The distinct addresses registered under a name, oldest first. -/
def addrs (registered : List (String × String)) (name : String) : List String :=
  ((registered.filter (·.1 = name)).map Prod.snd).eraseDups

def step (registered : List (String × String)) : Op → Reply × List (String × String)
  | .register name addr => (.registered, registered ++ [(name, addr)])
  | .discover name =>
    if addrs registered name = [] then (notFound name, registered)
    else (.addrs (addrs registered name), registered)

end Spec

theorem eraseDups_concat (l : List String) (a : String) :
    (l ++ [a]).eraseDups = if a ∈ l.eraseDups then l.eraseDups else l.eraseDups ++ [a] := by
  rw [eraseDups_append]
  by_cases ha : a ∈ l
  · rw [if_pos (mem_eraseDups.2 ha)]
    simp [List.removeAll, ha]
  · rw [if_neg (mt mem_eraseDups.1 ha)]
    simp [List.removeAll, ha, eraseDups_cons]

theorem addrs_register (registered : List (String × String)) (name addr : String) :
    Spec.addrs (registered ++ [(name, addr)]) name =
      if addr ∈ Spec.addrs registered name then Spec.addrs registered name
      else Spec.addrs registered name ++ [addr] := by
  unfold Spec.addrs
  rw [filter_append, map_append, ← eraseDups_concat]
  congr 2
  simp

theorem addrs_register_ne (registered : List (String × String)) {name name' : String}
    (h : name' ≠ name) (addr : String) :
    Spec.addrs (registered ++ [(name, addr)]) name' = Spec.addrs registered name' := by
  unfold Spec.addrs
  rw [filter_append]
  simp [h.symm]

/-! ## Simulation -/

theorem replies_iff {S T : Type} {step : S → Op → Reply × S} {step' : T → Op → Reply × T}
    {Ok : Op → Prop} (Sim : S → T → Prop)
    (hstep : ∀ s t op, Sim s t → Ok op → (step s op).1 = (step' t op).1 ∧
      Sim (step s op).2 (step' t op).2)
    (hbad : ∀ s t op, Sim s t → ¬ Ok op → (step s op).1 ≠ (step' t op).1) :
    ∀ (ops : List Op) (s : S) (t : T), Sim s t →
      (replies step s ops = replies step' t ops ↔ ∀ op ∈ ops, Ok op)
  | [], _, _, _ => iff_of_true rfl (forall_mem_nil _)
  | op :: ops, s, t, hsim => by
    rw [replies, replies, cons_eq_cons, forall_mem_cons]
    by_cases hok : Ok op
    · obtain ⟨hreply, hsim'⟩ := hstep s t op hsim hok
      exact and_congr (iff_of_true hreply hok) (replies_iff Sim hstep hbad ops _ _ hsim')
    · exact iff_of_false (fun h => hbad s t op hsim hok h.1) fun h => hok h.1

/-- The store has the addresses of every name that has any, and no other names. -/
def Holds (services : Services) (registered : List (String × String)) : Prop :=
  ∀ name, services.lookup name =
    if Spec.addrs registered name = [] then none else some (Spec.addrs registered name)

namespace Holds

variable {services services' : Services} {registered : List (String × String)} {name addr : String}

theorem empty : Holds ∅ [] := fun _ => rfl

section
variable (h : Holds services registered)
include h

theorem getD (name : String) : (services.lookup name).getD [] = Spec.addrs registered name := by
  rw [h name]
  split
  · rename_i hnil
    rw [hnil]
    rfl
  · rfl

/-- A store that changes at one name only, as the registration says. -/
theorem register
    (hname : services'.lookup name = some (Spec.addrs (registered ++ [(name, addr)]) name))
    (hother : ∀ name', name' ≠ name → services'.lookup name' = services.lookup name') :
    Holds services' (registered ++ [(name, addr)]) := by
  intro name'
  by_cases he : name' = name
  · subst he
    have hne : Spec.addrs (registered ++ [(name', addr)]) name' ≠ [] := by
      rw [addrs_register]
      split
      · rename_i hmem
        exact ne_nil_of_mem hmem
      · exact append_ne_nil_of_right_ne_nil _ (cons_ne_nil _ _)
    rw [if_neg hne, hname]
  · rw [hother name' he, addrs_register_ne registered he]
    exact h name'

/-- An address that is there was registered under a name that is in the store. -/
theorem lookup_of_mem (hmem : addr ∈ Spec.addrs registered name) :
    services.lookup name = some (Spec.addrs registered name) := by
  rw [h name, if_neg (ne_nil_of_mem hmem)]

/-- The step that all implementations share: the addresses of the name are extended unless the
address is there, in a store that otherwise has what it had. -/
theorem register_step {old : List String} (hold : old = Spec.addrs registered name)
    (hother : ∀ name', name' ≠ name → services'.lookup name' = services.lookup name')
    (hsame : addr ∈ old → services'.lookup name = some old) {r : Reply × Services}
    (hr : r = if addr ∈ old then (.registered, services')
      else (.registered, services'.insert name (old ++ [addr]))) :
    r.1 = .registered ∧ Holds r.2 (registered ++ [(name, addr)]) := by
  subst hold hr
  split
  · rename_i hmem
    refine ⟨rfl, h.register ?_ hother⟩
    rw [hsame hmem, addrs_register, if_pos hmem]
  · rename_i hmem
    refine ⟨rfl, h.register ?_ fun name' hne => ?_⟩
    · rw [AList.lookup_insert, addrs_register, if_neg hmem]
    · rw [AList.lookup_insert_ne hne, hother name' hne]

theorem discover (name : String) :
    services.lookup name = none ∧
      Spec.step registered (.discover name) = (notFound name, registered) ∨
      ∃ addrs ≠ [], services.lookup name = some addrs ∧
        Spec.step registered (.discover name) = (.addrs addrs, registered) := by
  rw [h name, Spec.step]
  by_cases hnil : Spec.addrs registered name = []
  · rw [if_pos hnil, if_pos hnil]
    exact .inl ⟨rfl, rfl⟩
  · rw [if_neg hnil, if_neg hnil]
    exact .inr ⟨_, hnil, rfl, rfl⟩

end

end Holds

section Steps

variable {services : Services} {registered : List (String × String)}

/-- An implementation answers an operation as the specification does. -/
def Simulates (step : Services → Op → Reply × Services) (op : Op) : Prop :=
  ∀ services registered, Holds services registered →
    (step services op).1 = (Spec.step registered op).1 ∧
      Holds (step services op).2 (Spec.step registered op).2

theorem go_step (op : Op) : Simulates Go.step op := by
  intro services registered h
  cases op with
  | register name addr =>
    refine h.register_step (h.getD name) (fun _ _ => rfl) (fun hmem => ?_) rfl
    rw [h.getD name] at hmem ⊢
    exact h.lookup_of_mem hmem
  | discover name =>
    rcases h.discover name with ⟨hl, hs⟩ | ⟨addrs, hne, hl, hs⟩ <;> simp [Go.step, *]

theorem setdefault_spec (h : Holds services registered) (name : String) :
    (Py.setdefault services name).1 = Spec.addrs registered name ∧
      (∀ name', name' ≠ name →
        (Py.setdefault services name).2.lookup name' = services.lookup name') ∧
      (Py.setdefault services name).2.lookup name = some (Py.setdefault services name).1 := by
  have hold := h.getD name
  unfold Py.setdefault
  cases hl : services.lookup name with
  | none =>
    rw [hl] at hold
    exact ⟨hold, fun name' hne => AList.lookup_insert_ne hne, AList.lookup_insert _⟩
  | some addrs =>
    rw [hl] at hold
    exact ⟨hold, fun _ _ => rfl, hl⟩

theorem py_step (op : Op) : Simulates Py.step op := by
  intro services registered h
  cases op with
  | register name addr =>
    obtain ⟨hold, hother, hsame⟩ := setdefault_spec h name
    exact h.register_step hold hother (fun _ => hsame) rfl
  | discover name => exact go_step (.discover name) services registered h

theorem rust_step (op : Op) : Simulates Rust.step op := by
  intro services registered h
  cases op with
  | register name addr => exact py_step (.register name addr) services registered h
  | discover name =>
    rcases h.discover name with ⟨hl, hs⟩ | ⟨addrs, -, hl, hs⟩ <;> simp [Rust.step, *]

/-! ## TypeScript -/

/-- The object answers as a map does: what it inherits under the name is nothing, or a function
without parameters that `discover` takes for an empty array. -/
def Ts.Plain : Op → Prop
  | .register name _ => objectPrototype.lookup name = none
  | .discover name => ∀ length ∈ objectPrototype.lookup name, length = some 0

theorem ts_step {op : Op} (hop : Ts.Plain op) : Simulates Ts.step op := by
  intro registryStore registered h
  cases op with
  | register name addr =>
    have hpy : Ts.step registryStore (.register name addr) =
        Py.step registryStore (.register name addr) := by
      have hname : Ts.objectPrototype.lookup name = none := hop
      cases hl : registryStore.lookup name <;>
        simp [Ts.step, Ts.get, Py.step, Py.setdefault, hl, hname]
    rw [hpy]
    exact py_step _ registryStore registered h
  | discover name =>
    rcases h.discover name with ⟨hl, hs⟩ | ⟨addrs, hne, hl, hs⟩
    · cases hi : Ts.objectPrototype.lookup name with
      | none => simp [Ts.step, Ts.get, hl, hs, hi, h]
      | some length => simp [Ts.step, Ts.get, hl, hs, hi, hop length hi, h]
    · simp [Ts.step, Ts.get, hl, hs, hne, h]

/-- No inherited name has been registered. -/
def Ts.Clean (registered : List (String × String)) : Prop :=
  ∀ e ∈ registered, objectPrototype.lookup e.1 = none

theorem ts_other (services : Services) (registered : List (String × String)) (op : Op)
    (h : Holds services registered ∧ Ts.Clean registered) (hop : ¬ Ts.Plain op) :
    (Ts.step services op).1 ≠ (Spec.step registered op).1 := by
  obtain ⟨h, hreg⟩ := h
  have hnew : ∀ {name length}, Ts.objectPrototype.lookup name = some length →
      services.lookup name = none := by
    intro name length hi
    have hnil : registered.filter (·.1 = name) = [] := by
      refine filter_eq_nil_iff.2 fun e he hname => ?_
      cases ((of_decide_eq_true hname ▸ hreg e he : _ = none)).symm.trans hi
    rw [h name, Spec.addrs, hnil]
    rfl
  cases op with
  | register name addr =>
    obtain ⟨length, hi⟩ := Option.ne_none_iff_exists'.1 hop
    simp [Ts.step, Ts.get, hnew hi, hi, Spec.step]
  | discover name =>
    simp only [Ts.Plain, not_forall] at hop
    obtain ⟨length, hi, hlen⟩ := hop
    rcases h.discover name with ⟨-, hs⟩ | ⟨_, -, hl, -⟩
    · simp [Ts.step, Ts.get, hnew hi, show _ = some length from hi, hlen, hs, notFound]
    · cases (hnew hi).symm.trans hl

end Steps

/-- **The registries agree.** Every sequence of operations has the same replies in Go, Python and
Rust, and those that the registrations so far prescribe. In TypeScript it has these exactly if no
name is a member of `Object.prototype`, but for the `discover` of one without parameters. -/
theorem registries_agree (ops : List Op) :
    replies Go.step ∅ ops = replies Spec.step [] ops ∧
    replies Py.step ∅ ops = replies Spec.step [] ops ∧
    replies Rust.step ∅ ops = replies Spec.step [] ops ∧
    (replies Ts.step ∅ ops = replies Spec.step [] ops ↔ ∀ op ∈ ops, Ts.Plain op) := by
  have hall : ∀ {step}, (∀ op, Simulates step op) →
      replies step ∅ ops = replies Spec.step [] ops := fun hstep =>
    (replies_iff Holds (fun s t op h _ => hstep op s t h)
      (fun _ _ _ _ h => absurd trivial h) ops _ _
      .empty).2 fun _ _ => trivial
  refine ⟨hall go_step, hall py_step, hall rust_step, ?_⟩
  refine replies_iff _ (fun s t op h hop => ?_) ts_other ops _ _ ⟨.empty, forall_mem_nil _⟩
  obtain ⟨hreply, hholds⟩ := ts_step hop s t h.1
  refine ⟨hreply, hholds, ?_⟩
  cases op with
  | register => exact forall_mem_append.2 ⟨h.2, forall_mem_singleton.2 hop⟩
  | discover name =>
    rcases h.1.discover name with ⟨-, hs⟩ | ⟨_, -, -, hs⟩ <;> rw [hs] <;> exact h.2

/-- **Inherited names.** TypeScript throws when a service is registered as `constructor`, and
answers `discover` of a name that nobody has registered with what its store inherits. -/
theorem inherited_names :
    replies Go.step ∅ [.register "constructor" "a:1", .discover "constructor"] =
      [.registered, .addrs ["a:1"]] ∧
    replies Ts.step ∅ [.register "constructor" "a:1", .discover "constructor"] =
      [.typeError "registryStore[key].includes is not a function", .member "constructor"] ∧
    replies Go.step ∅ [.discover "__proto__"] = [.notFound "service not found: __proto__"] ∧
    replies Ts.step ∅ [.discover "__proto__"] = [.member "__proto__"] := by
  decide

end Callwire.Registry
