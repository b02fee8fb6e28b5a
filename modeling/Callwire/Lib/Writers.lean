import Callwire.Lib.ArrayUpdate

/-!
# Writers that share a wire

Each of a list of writers has an identity of its own and keeps a record of what it has written to a
wire that they all share; a message on the wire names the writer it is from. `Recorded` says that
what the wire holds of a writer is the record of that writer, in order, and that everything on the
wire is from some writer. A writer that writes and a new writer keep it (`Recorded.write`,
`Recorded.spawn`), so that a property of the whole wire follows from one of the single records.
-/

namespace Lib

open List

variable {ι W M : Type} [DecidableEq ι]

/-- What the wire holds of `k`. -/
def writtenBy (source : M → ι) (k : ι) (wire : List M) : List M := wire.filter fun m => source m = k

section
variable {source : M → ι} {k : ι} {wire out : List M}

theorem writtenBy_append :
    writtenBy source k (wire ++ out) = writtenBy source k wire ++ writtenBy source k out :=
  filter_append ..

theorem writtenBy_eq_self (h : ∀ m ∈ out, source m = k) : writtenBy source k out = out :=
  filter_eq_self.2 fun m hm => decide_eq_true (h m hm)

theorem writtenBy_eq_nil (h : ∀ m ∈ out, source m ≠ k) : writtenBy source k out = [] :=
  filter_eq_nil_iff.2 fun m hm hk => h m hm (of_decide_eq_true hk)

end

/-- The wire holds what the writers have recorded. -/
structure Recorded (source : M → ι) (ident : W → ι) (record : W → List M) (writers : List W)
    (wire : List M) : Prop where
  distinct : (writers.map ident).Nodup
  owned : ∀ m ∈ wire, ∃ w ∈ writers, ident w = source m
  records : ∀ w ∈ writers, writtenBy source (ident w) wire = record w

namespace Recorded

variable {source : M → ι} {ident : W → ι} {record : W → List M} {writers : List W} {wire : List M}

theorem nil : Recorded source ident record [] [] :=
  ⟨nodup_nil, nofun, nofun⟩

section
variable (h : Recorded source ident record writers wire)
include h

/-- Only the identities and the records matter. -/
theorem congr {writers' : List W}
    (hmap : writers'.map (fun w => (ident w, record w)) =
      writers.map fun w => (ident w, record w)) :
    Recorded source ident record writers' wire := by
  have hident : writers'.map ident = writers.map ident := by
    have := congrArg (List.map Prod.fst) hmap
    rwa [map_map, map_map] at this
  refine ⟨hident ▸ h.distinct, fun m hm => ?_, fun w hw => ?_⟩
  · obtain ⟨v, hv, he⟩ := h.owned m hm
    obtain ⟨w, hw, hwv⟩ : ∃ w ∈ writers', ident w = ident v :=
      mem_map.1 (hident ▸ mem_map_of_mem hv)
    exact ⟨w, hw, hwv.trans he⟩
  · obtain ⟨v, hv, hvw⟩ : ∃ v ∈ writers, (ident v, record v) = (ident w, record w) :=
      mem_map.1 (hmap ▸ mem_map_of_mem hw)
    obtain ⟨hid, hrec⟩ := Prod.mk.inj hvw
    rw [← hid, h.records v hv, hrec]

/-- **A writer writes.** -/
theorem write {i : Nat} {w w' : W} {out : List M} (hw : writers[i]? = some w)
    (hident : ident w' = ident w) (hrecord : record w' = record w ++ out)
    (hout : ∀ m ∈ out, source m = ident w) :
    Recorded source ident record (writers.set i w') (wire ++ out) := by
  have hmem : w ∈ writers := mem_of_getElem? hw
  have hmap : (writers.set i w').map ident = writers.map ident := map_set_of_eq ident hw hident
  refine ⟨hmap ▸ h.distinct, ?_, ?_⟩
  · -- the identities are the same as before
    have hsame : ∀ v ∈ writers, ∃ u ∈ writers.set i w', ident u = ident v := by
      intro v hv
      have : ident v ∈ (writers.set i w').map ident := hmap ▸ mem_map_of_mem hv
      exact mem_map.1 this
    intro m hm
    rcases mem_append.1 hm with hm | hm
    · obtain ⟨v, hv, he⟩ := h.owned m hm
      obtain ⟨u, hu, heu⟩ := hsame v hv
      exact ⟨u, hu, heu.trans he⟩
    · obtain ⟨u, hu, heu⟩ := hsame w hmem
      exact ⟨u, hu, heu.trans (hout m hm).symm⟩
  · intro v hv
    obtain ⟨j, hj⟩ := mem_iff_getElem?.1 hv
    rw [writtenBy_append]
    rcases set_cases hw hj with ⟨-, rfl⟩ | ⟨hij, hj⟩
    · rw [hident, h.records w hmem, writtenBy_eq_self hout, hrecord]
    · have hvmem : v ∈ writers := mem_of_getElem? hj
      have hne : ident v ≠ ident w := by
        intro he
        have hkeys : (writers.map ident)[i]? = (writers.map ident)[j]? := by
          rw [getElem?_map, getElem?_map, hw, hj, Option.map_some, Option.map_some, he]
        exact hij ((getElem?_inj (by simpa using (lt_of_some hw))
          h.distinct).1 hkeys)
      have hnil : writtenBy source (ident v) out = [] :=
        writtenBy_eq_nil fun m hm he => hne (he.symm.trans (hout m hm))
      rw [hnil, append_nil, h.records v hvmem]

/-- A writer changes and writes nothing. -/
theorem quiet {i : Nat} {w w' : W} (hw : writers[i]? = some w) (hident : ident w' = ident w)
    (hrecord : record w' = record w) : Recorded source ident record (writers.set i w') wire := by
  have := h.write hw hident (hrecord.trans (append_nil _).symm) nofun
  rwa [append_nil] at this

/-- **A new writer.** -/
theorem spawn {w : W} (hnew : ∀ v ∈ writers, ident v ≠ ident w) (hrecord : record w = []) :
    Recorded source ident record (writers ++ [w]) wire := by
  refine ⟨?_, ?_, ?_⟩
  · rw [map_append, nodup_append]
    refine ⟨h.distinct, nodup_singleton _, ?_⟩
    intro a ha b hb hab
    obtain ⟨v, hv, rfl⟩ := mem_map.1 ha
    exact hnew v hv (hab.trans (mem_singleton.1 hb))
  · intro m hm
    obtain ⟨v, hv, he⟩ := h.owned m hm
    exact ⟨v, mem_append_left _ hv, he⟩
  · refine forall_concat h.records ?_
    rw [hrecord]
    refine writtenBy_eq_nil fun m hm he => ?_
    obtain ⟨u, hu, heu⟩ := h.owned m hm
    exact hnew u hu (heu.trans he)

/-- What every record has at most once, the wire has at most once of each writer. -/
theorem atMostOnce {p : M → Bool} (hone : ∀ w ∈ writers, ((record w).filter p).length ≤ 1) (k : ι) :
    ((writtenBy source k wire).filter p).length ≤ 1 := by
  by_cases hk : ∃ w ∈ writers, ident w = k
  · obtain ⟨w, hw, rfl⟩ := hk
    rw [h.records w hw]
    exact hone w hw
  · have hnil : writtenBy source k wire = [] := by
      refine writtenBy_eq_nil fun m hm he => ?_
      obtain ⟨w, hw, hident⟩ := h.owned m hm
      exact hk ⟨w, hw, hident.trans he⟩
    rw [hnil]
    exact Nat.zero_le 1

end

end Recorded

end Lib
