import Callwire.Go.Reflect
import Callwire.Lib.Faults

/-!
# Arguments and results of exported functions

What the conversion of arguments can end with. A value that it accepts is assignable to its
parameter (`convertArg_assignable`), so that a function that is not variadic is called with the
arguments of a unary request (`unaryArgs_call`); a refusal is an error frame with the id of the
request (`unaryArgs_refused`, `clientStreamArgs_refused`).
-/

namespace Callwire.Go

open Lib List

variable {R : Reflect} {fn : FuncType R} {k : BitVec 64} {frame msg : WireMessage} {pos : Nat}
  {args : List Value} {ts : List R.Ty} {arg : Value}

def Refusal (k : BitVec 64) (frame : WireMessage) : Prop :=
  ∃ message, frame = errorMessage k "TypeError" message

theorem Refusal.id_eq (h : Refusal k frame) : frame.id = k := by
  obtain ⟨message, rfl⟩ := h
  rfl

theorem Refusal.type_eq (h : Refusal k frame) : frame.type = "error" := by
  obtain ⟨message, rfl⟩ := h
  rfl

/-! ## One argument -/

theorem typeOf_decode {t : R.Ty} {v : R.Val} (h : decodeIntoParamType arg t = .ok v) :
    R.typeOf v = t := by
  unfold decodeIntoParamType at h
  cases hm : R.marshal arg with
  | error => rw [hm] at h; cases h
  | ok raw => exact R.typeOf_unmarshal (hm ▸ h)

theorem convertArg_assignable {t : R.Ty} {v : R.Val} (h : convertArg k pos arg t = .ok v) :
    R.assignableTo (R.typeOf v) t = true := by
  unfold convertArg at h
  split at h
  · cases h
    rw [R.typeOf_zero]
    exact R.assignableTo_self t
  · split at h
    · cases h
      assumption
    · split at h
      · split at h <;> cases h
        rw [R.typeOf_convert ‹_›]
        exact R.assignableTo_self t
      · split at h <;> cases h
        rw [typeOf_decode ‹_›]
        exact R.assignableTo_self t

theorem convertArg_refused {t : R.Ty} (h : convertArg k pos arg t = .error (.reply frame)) :
    Refusal k frame := by
  unfold convertArg at h
  split at h
  · cases h
  · split at h
    · cases h
    · split at h
      · split at h <;> cases h
      · split at h <;> cases h
        exact ⟨_, rfl⟩

/-- `Convert` succeeds on every decoded value that the parameter type is said to be convertible
from. -/
def Converts (t : R.Ty) : Prop :=
  ∀ arg v, R.valueOf arg = some v → R.convertibleTo (R.typeOf v) t = true →
    (R.convert v t).isSome = true

theorem convertArg_noPanic {t : R.Ty} (h : Converts t) :
    convertArg k pos arg t ≠ .error .panic := by
  unfold convertArg
  split
  · exact nofun
  · split
    · exact nofun
    · split
      · split
        · exact nofun
        · have := h arg _ ‹_› ‹_›
          simp_all
      · split <;> exact nofun

/-! ## All arguments -/

theorem convertArgs_ok {vs : List R.Val} (h : convertArgs k pos args ts = .ok vs) :
    vs.length = args.length ∧ (args.length = ts.length → fits ts (vs.map .value) = true) := by
  induction args generalizing ts vs pos with
  | nil =>
    cases h
    refine ⟨rfl, fun hlen => ?_⟩
    rw [length_eq_zero_iff.1 hlen.symm]
    rfl
  | cons arg args ih =>
    cases ts with
    | nil => cases h
    | cons t ts =>
      obtain ⟨v, hv, h⟩ := of_bind_ok h
      obtain ⟨vs', hvs, h⟩ := of_bind_ok h
      cases h
      obtain ⟨hlen, hfits⟩ := ih hvs
      refine ⟨congrArg (· + 1) hlen, fun hlen => ?_⟩
      rw [map_cons, fits, hfits (Nat.succ.inj hlen), Bool.and_true]
      exact convertArg_assignable hv

/-- The conversion fails at one of the arguments, or for want of parameters. -/
theorem convertArgs_error {stop : Stop} (h : convertArgs k pos args ts = .error stop) :
    (∃ pos arg, ∃ t ∈ ts, convertArg k pos arg t = .error stop) ∨
      ts.length < args.length ∧ stop = .panic := by
  induction args generalizing ts pos with
  | nil => cases h
  | cons arg args ih =>
    cases ts with
    | nil =>
      cases h
      exact .inr ⟨Nat.succ_pos _, rfl⟩
    | cons t ts =>
      rcases of_bind_error h with hv | ⟨v, hv, h⟩
      · exact .inl ⟨_, _, t, mem_cons_self, hv⟩
      · rcases of_bind_error h with hvs | ⟨vs, hvs, h⟩
        · rcases ih hvs with ⟨pos, arg, t, ht, h⟩ | ⟨hlen, h⟩
          · exact .inl ⟨pos, arg, t, mem_cons_of_mem _ ht, h⟩
          · exact .inr ⟨Nat.succ_lt_succ hlen, h⟩
        · cases h

theorem convertArgs_refused (h : convertArgs k pos args ts = .error (.reply frame)) :
    Refusal k frame := by
  rcases convertArgs_error h with ⟨pos, arg, t, -, h⟩ | ⟨-, h⟩
  · exact convertArg_refused h
  · cases h

theorem convertArgs_noPanic (hlen : args.length ≤ ts.length) (ht : ∀ t ∈ ts, Converts t) :
    convertArgs k pos args ts ≠ .error .panic := by
  intro h
  rcases convertArgs_error h with ⟨pos, arg, t, hmem, h⟩ | ⟨hlt, -⟩
  · exact convertArg_noPanic (ht t hmem) h
  · exact hlen.not_gt hlt

/-! ## The call -/

theorem FuncType.call_accepts {ins : List (Option (Arg R))} {args : List (Arg R)}
    (h : fn.call ins = some args) : fn.accepts args = true := by
  obtain ⟨args', -, h⟩ := Option.bind_eq_some_iff.1 h
  split at h <;> cases h
  assumption

theorem mapM_some {α : Type} (args : List α) : (args.map some).mapM id = some args := by
  induction args with
  | nil => rfl
  | cons arg args ih => simp [mapM_cons, ih]

theorem FuncType.call_of_fits {args : List (Arg R)} (hv : fn.variadic = false)
    (h : fits fn.ins args = true) : fn.call (args.map some) = some args := by
  rw [call, mapM_some]
  simp [accepts, hv, h]

theorem unaryArgs_call {ins : List (Option (Arg R))} (hv : fn.variadic = false)
    (h : unaryArgs fn msg = .ok ins) : ∃ args, fn.call ins = some args := by
  unfold unaryArgs at h
  dsimp only at h
  split at h
  · cases h
  · rename_i hlen
    obtain ⟨vs, hvs, h⟩ := of_bind_ok h
    cases h
    have hfits := (convertArgs_ok hvs).2 (not_not.1 hlen)
    refine ⟨vs.map .value, ?_⟩
    rw [← FuncType.call_of_fits hv hfits, map_map]
    rfl

theorem unaryArgs_refused (h : unaryArgs fn msg = .error (.reply frame)) :
    Refusal msg.id frame := by
  unfold unaryArgs at h
  dsimp only at h
  split at h
  · cases h
    exact ⟨_, rfl⟩
  · rcases of_bind_error h with hvs | ⟨vs, -, h⟩
    · exact convertArgs_refused hvs
    · cases h

theorem unaryArgs_noPanic (ht : ∀ t ∈ fn.ins, Converts t) : unaryArgs fn msg ≠ .error .panic := by
  unfold unaryArgs
  dsimp only
  split
  · exact nofun
  · rename_i hlen
    intro h
    rcases of_bind_error h with hvs | ⟨vs, -, h⟩
    · exact convertArgs_noPanic (not_not.1 hlen).le ht hvs
    · cases h

/-! ## Client streams -/

/-- The chunk can be sent into a channel with elements of type `elem`. -/
def Sendable (elem : R.Ty) (chunk : Value) : Prop :=
  ∃ v, R.valueOf chunk = some v ∧ R.assignableTo (R.typeOf v) elem = true

theorem sendChunks_of_sendable {elem : R.Ty} {chunks : List Value}
    (h : ∀ c ∈ chunks, Sendable elem c) : ∃ items, sendChunks elem chunks = some items := by
  induction chunks with
  | nil => exact ⟨[], rfl⟩
  | cons c chunks ih =>
    obtain ⟨v, hv, ha⟩ := h c mem_cons_self
    obtain ⟨items, hitems⟩ := ih fun c hc => h c (mem_cons_of_mem _ hc)
    exact ⟨v :: items, by simp [sendChunks, hv, ha, hitems]⟩

/-- Everything but nil can be sent into a channel of `interface{}`. -/
theorem sendChunks_any {chunks : List Value} {items : List R.Val}
    (h : chunks.map R.valueOf = items.map some) : sendChunks R.any chunks = some items := by
  induction chunks generalizing items with
  | nil =>
    cases items with
    | nil => rfl
    | cons => cases h
  | cons c chunks ih =>
    cases items with
    | nil => cases h
    | cons v items =>
      rw [map_cons, map_cons, List.cons.injEq] at h
      simp [sendChunks, h.1, R.assignableTo_any, ih h.2]

section
variable {chanType : R.Ty} {rest : List R.Ty} {msg : WireMessage} {chunks : List Value}

theorem chunkChannel_not_reply {frame : WireMessage} :
    chunkChannel chanType chunks ≠ .error (.reply frame) := by
  unfold chunkChannel
  split
  · split <;> exact nofun
  · exact nofun

theorem clientStreamArgs_refused {frame : WireMessage}
    (h : clientStreamArgs chanType rest msg chunks = .error (.reply frame)) :
    Refusal msg.id frame := by
  unfold clientStreamArgs at h
  dsimp only at h
  split at h
  · cases h
    exact ⟨_, rfl⟩
  · rcases of_bind_error h with hch | ⟨channel, -, h⟩
    · exact absurd hch chunkChannel_not_reply
    · rcases of_bind_error h with hvs | ⟨vs, -, h⟩
      · exact convertArgs_refused hvs
      · cases h

/-- With as many arguments as there are parameters after the channel, the arguments are the channel
and the converted arguments. -/
theorem clientStreamArgs_eq {elem : R.Ty} {items : List R.Val}
    (hchan : R.chan chanType = some (.both, elem)) (hitems : sendChunks elem chunks = some items)
    (hlen : (msg.args.getD []).length = rest.length) :
    clientStreamArgs chanType rest msg chunks =
      (convertArgs msg.id 2 (msg.args.getD []) rest).map fun vs =>
        (.chunks chanType items :: vs.map .value).map some := by
  have hch : chunkChannel chanType chunks = .ok (.chunks chanType items) := by
    simp [chunkChannel, hchan, hitems]
  unfold clientStreamArgs
  dsimp only
  rw [if_neg (by omega), hch]
  cases hvs : convertArgs msg.id 2 (msg.args.getD []) rest with
  | error stop => rfl
  | ok vs =>
    have : rest.length - vs.length = 0 := by rw [(convertArgs_ok hvs).1, hlen, Nat.sub_self]
    simp [bind, Except.bind, Except.map, pure, Except.pure, this]

theorem clientStreamArgs_call {items vs : List R.Val}
    (hv : fn.variadic = false) (hins : fn.ins = chanType :: rest)
    (hlen : (msg.args.getD []).length = rest.length)
    (hvs : convertArgs msg.id 2 (msg.args.getD []) rest = .ok vs) :
    fn.call ((.chunks chanType items :: vs.map .value).map some) =
      some (.chunks chanType items :: vs.map .value) := by
  apply FuncType.call_of_fits hv
  rw [hins, fits, (convertArgs_ok hvs).2 hlen, Bool.and_true]
  exact R.assignableTo_self chanType

end

/-! ## Results -/

theorem GoError.frame_id {err : GoError} (h : err.frame k = some frame) : frame.id = k := by
  cases err with
  | wire errorType message | other text =>
    cases h
    rfl
  | broken => cases h

theorem unaryReply_id {results : List R.Val} (h : unaryReply k results = some frame) :
    frame.id = k := by
  unfold unaryReply at h
  split at h
  · exact GoError.frame_id h
  · cases h
    rfl
  · split at h <;> cases h
    · rfl
    · rfl

/-! ## A small type system

Numbers, strings, errors, channels and `interface{}`, with no conversions: enough for runs on given
inputs. -/

inductive PlainTy where
  | any
  | number
  | text
  | other
  | error
  | chan (dir : ChanDir) (elem : PlainTy)
  deriving DecidableEq

inductive PlainVal where
  | of (t : PlainTy) (v : Value)
  | error (err : GoError)

def PlainVal.typeOf : PlainVal → PlainTy
  | .of t _ => t
  | .error _ => .error

def PlainTy.chan? : PlainTy → Option (ChanDir × PlainTy)
  | .chan dir elem => some (dir, elem)
  | _ => none

def plainValueOf : Value → Option PlainVal
  | .nil => none
  | .int n => some (.of .number (.int n))
  | .str s => some (.of .text (.str s))
  | v => some (.of .other v)

def PlainVal.encode : PlainVal → Option Value
  | .of (.chan _ _) _ => none
  | .of _ v => some v
  | .error _ => none

def PlainVal.asError : PlainVal → Option GoError
  | .of _ _ => none
  | .error err => some err

def plain : Reflect where
  Ty := PlainTy
  Val := PlainVal
  typeOf := PlainVal.typeOf
  chan := PlainTy.chan?
  elem := id
  any := .any
  implementsError t := t = .error
  assignableTo s t := s = t || t = .any
  convertibleTo _ _ := false
  convert _ _ := none
  zero t := .of t .nil
  valueOf := plainValueOf
  marshal _ := .error "unsupported"
  unmarshal _ _ := .error "unsupported"
  asError := PlainVal.asError
  encode := PlainVal.encode
  assignableTo_self t := by simp
  assignableTo_any t := by simp
  typeOf_zero _ := rfl
  typeOf_convert h := nomatch h
  typeOf_unmarshal h := nomatch h
  valueOf_isSome v := by cases v <;> simp [plainValueOf]

/-- `f` has no parameters and no results. -/
def voidRegistry : Registry plain := AList.insert "f" ⟨⟨[], [], false⟩, rfl⟩ ∅

/-- `g` takes a channel of anything, and `h` a channel of numbers, of which it returns one. -/
def chanRegistry : Registry plain :=
  (AList.insert "g" ⟨⟨[.chan .both .any], [], false⟩, rfl⟩ ∅).insert "h"
    ⟨⟨[.chan .both .number], [.chan .recv .number], false⟩, rfl⟩

end Callwire.Go
