/-!
# Results with a trace

`Traced ε α` is a value of type `α` with the records of type `ε` that led to it, in order. Binding
appends traces, so a trace says in which order things were found.
-/

namespace Oxidize

/-- A value and the records made on the way to it. -/
structure Traced (ε : Type) (α : Type) where
  value : α
  trace : List ε

namespace Traced

variable {ε α β : Type}

instance : Monad (Traced ε) where
  pure a := ⟨a, []⟩
  bind x f := ⟨(f x.value).value, x.trace ++ (f x.value).trace⟩

/-- One record. -/
def tell (e : ε) : Traced ε Unit :=
  ⟨(), [e]⟩

/-- Several records. -/
def tellAll (es : List ε) : Traced ε Unit :=
  ⟨(), es⟩

/-- One record under a condition. -/
def tellIf (b : Bool) (e : ε) : Traced ε Unit :=
  if b then tell e else pure ()

/-- A value that is given is the value. -/
@[simp] theorem value_pure (a : α) : (pure a : Traced ε α).value = a := rfl

/-- A value that is given has no trace. -/
@[simp] theorem trace_pure (a : α) : (pure a : Traced ε α).trace = [] := rfl

/-- The value of two computations in a row is that of the second one. -/
@[simp] theorem value_bind (x : Traced ε α) (f : α → Traced ε β) :
    (x >>= f).value = (f x.value).value := rfl

/-- The trace of two computations in a row is that of both. -/
@[simp] theorem trace_bind (x : Traced ε α) (f : α → Traced ε β) :
    (x >>= f).trace = x.trace ++ (f x.value).trace := rfl

/-- A value that is given is handed on. -/
theorem pure_bind (a : α) (f : α → Traced ε β) : (pure a : Traced ε α) >>= f = f a := rfl

/-- Computations in a row can be grouped either way. -/
theorem bind_assoc {γ : Type} (x : Traced ε α) (f : α → Traced ε β) (g : β → Traced ε γ) :
    x >>= f >>= g = x >>= fun a => f a >>= g :=
  congrArg (Traced.mk _) (List.append_assoc ..)

end Traced

end Oxidize
