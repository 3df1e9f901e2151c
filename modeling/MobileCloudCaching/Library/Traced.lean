import Mathlib.Data.List.Basic

/-!
# Computations that record their memory accesses

`Traced ε α` is a result of type `α` together with the list of accesses made to obtain it, in order.
A safety statement about a decoder speaks about `trace`, its functional specification about `value`.
-/

/-- A value and the accesses made on the way to it. -/
structure Traced (ε α : Type*) where
  trace : List ε
  value : α

namespace Traced

universe u v

variable {ε : Type u} {α β : Type v}

/-- One access, with the value it yields. -/
def access (e : ε) (a : α) : Traced ε α := ⟨[e], a⟩

/-- Run a second computation on the value of the first. -/
protected def bind (x : Traced ε α) (f : α → Traced ε β) : Traced ε β :=
  ⟨x.trace ++ (f x.value).trace, (f x.value).value⟩

instance : Monad (Traced ε) where
  pure a := ⟨[], a⟩
  bind := Traced.bind

@[simp] theorem trace_pure (a : α) : (pure a : Traced ε α).trace = [] := rfl

@[simp] theorem value_pure (a : α) : (pure a : Traced ε α).value = a := rfl

@[simp] theorem trace_access (e : ε) (a : α) : (access e a).trace = [e] := rfl

@[simp] theorem value_access (e : ε) (a : α) : (access e a).value = a := rfl

@[simp] theorem trace_bind (x : Traced ε α) (f : α → Traced ε β) :
    (x >>= f).trace = x.trace ++ (f x.value).trace := rfl

@[simp] theorem value_bind (x : Traced ε α) (f : α → Traced ε β) :
    (x >>= f).value = (f x.value).value := rfl

end Traced
