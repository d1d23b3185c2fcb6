/-
  The account that a frame runs stays the same.

  Nothing that a frame does to itself changes in whose name it runs. Each part of
  an instruction has one lemma here that says so.
-/
import Mathlib
import BlockExecution.Interpreter.Frame

namespace BlockExecution.Interpreter

open BlockExecution.Evm (Input)

/-- Whatever comes out satisfies `post`. -/
def Yields {α : Type} (x : Except Fault α) (post : α → Prop) : Prop := ∀ a, x = .ok a → post a

namespace Yields

variable {α β : Type} {x : Except Fault α} {post : α → Prop}

theorem ok {a : α} (h : post a) : Yields (.ok a) post := by
  rintro _ ⟨⟩
  exact h

theorem error (fault : Fault) : Yields (.error fault) post := by
  rintro _ ⟨⟩

theorem bind {f : α → Except Fault β} {after : β → Prop} (h : Yields x post)
    (hf : ∀ a, post a → Yields (f a) after) : Yields (x >>= f) after := by
  cases x with
  | error fault => exact error fault
  | ok a => exact hf a (h a rfl)

end Yields

namespace Frame

variable {f : Frame} {a : Address}

/-! ## Parts of instructions -/

theorem address_charge (h : f.address = a) (amount : Nat) :
    Yields (f.charge amount) (·.address = a) := by
  unfold charge
  split
  · exact .error _
  · exact .ok h

theorem address_pop (h : f.address = a) : Yields f.pop fun r => r.2.address = a := by
  unfold pop
  split
  · exact .error _
  · exact .ok h

theorem address_pop₂ (h : f.address = a) : Yields f.pop₂ fun r => r.2.2.address = a := by
  unfold pop₂
  split
  · exact .ok h
  · exact .error _

theorem address_pop₃ (h : f.address = a) : Yields f.pop₃ fun r => r.2.2.2.address = a := by
  unfold pop₃
  split
  · exact .ok h
  · exact .error _

theorem address_popMany (h : f.address = a) (count : Nat) :
    Yields (f.popMany count) fun r => r.2.address = a := by
  unfold popMany
  split
  · exact .error _
  · exact .ok h

theorem address_push (h : f.address = a) (word : Word) :
    Yields (f.push word) (·.address = a) := by
  unfold push
  split
  · exact .ok h
  · exact .error _

theorem address_duplicate (h : f.address = a) (depth : Nat) :
    Yields (f.duplicate depth) (·.address = a) := by
  unfold duplicate
  split
  · exact address_push h _
  · exact .error _

theorem address_exchange (h : f.address = a) (depth : Nat) :
    Yields (f.exchange depth) (·.address = a) := by
  unfold exchange
  split
  · exact .ok h
  · exact .error _

theorem address_expand (h : f.address = a) (offset len : Word) :
    Yields (f.expand offset len) (·.address = a) :=
  (address_charge h _).bind fun _ hf => .ok hf

theorem address_jump (h : f.address = a) (target : Word) :
    Yields (f.jump target) (·.address = a) := by
  unfold jump
  split
  · exact .ok h
  · exact .error _

theorem address_pass (h : f.address = a) (i : Instruction) :
    Yields (f.pass i) (·.address = a) :=
  (address_charge h _).bind fun _ hf => .ok hf

/-! ## Instructions of the frame alone -/

theorem address_copyCode (h : f.address = a) : Yields f.copyCode (·.address = a) :=
  (address_pop₃ h).bind fun _ h₁ => (address_charge h₁ _).bind fun _ h₂ =>
    (address_expand h₂ _ _).bind fun _ h₃ => .ok h₃

theorem address_storeWord (h : f.address = a) : Yields f.storeWord (·.address = a) :=
  (address_pop₂ h).bind fun _ h₁ => (address_expand h₁ _ _).bind fun _ h₂ => .ok h₂

theorem address_perform (env : Input) (h : f.address = a) (i : Instruction) :
    Yields (f.perform env i) (·.address = a) := by
  unfold perform
  split
  case h_1 | h_2 => exact (address_pop₂ h).bind fun _ hf => address_push hf _
  case h_3 | h_5 => exact (address_pop h).bind fun _ hf => address_push hf _
  case h_4 => exact address_copyCode h
  case h_6 => exact (address_pop h).bind fun _ hf => .ok hf
  case h_7 => exact address_storeWord h
  case h_8 => exact (address_pop h).bind fun _ hf => address_jump hf _
  case h_9 => exact .ok h
  case h_10 => exact address_push h _
  case h_11 => exact address_duplicate h _
  case h_12 => exact address_exchange h _
  case h_13 =>
    split
    · exact address_push h _
    · exact .error _

end Frame

end BlockExecution.Interpreter
