import Mathlib.Data.List.Infix

/-!
# Programs that make requests

A program makes requests, one after the other, and goes on with the answers. What is answered
may depend on everything before. `Runs` has every run of a program against every environment;
a `Plan` is a list of requests that is carried out up to the first that fails.
-/

namespace Patchli

/-- The requests that can be made, and what can be answered to each. -/
structure Interface where
  Request : Type
  Answer : Request → Type

namespace Interface

structure Event (I : Interface) where
  request : I.Request
  answer : I.Answer request

/-- The next answer, after what has been asked and answered so far. -/
abbrev Environment (I : Interface) := List I.Event → (q : I.Request) → I.Answer q

end Interface

open Interface

variable {I : Interface} {α β : Type}

/-- Requests and the values computed from their answers. -/
inductive Proc (I : Interface) (α : Type)
  | ret (a : α)
  | ask (q : I.Request) (next : I.Answer q → Proc I α)

namespace Proc

def bind : Proc I α → (α → Proc I β) → Proc I β
  | .ret a, f => f a
  | .ask q next, f => .ask q fun r => (next r).bind f

instance instMonad : Monad (Proc I) where
  pure := .ret
  bind := bind

@[simp] theorem pure_eq (a : α) : (pure a : Proc I α) = .ret a := rfl

@[simp] theorem ret_bind (a : α) (f : α → Proc I β) : (ret a >>= f) = f a := rfl

/-- Run in an environment, after the events `before`. -/
def run (env : I.Environment) : Proc I α → List I.Event → List I.Event × α
  | .ret a, _ => ([], a)
  | .ask q next, before =>
    let e : I.Event := ⟨q, env before q⟩
    let (es, a) := (next e.answer).run env (before ++ [e])
    (e :: es, a)

end Proc

/-! ### Two interfaces -/

def Interface.sum (I J : Interface) : Interface where
  Request := I.Request ⊕ J.Request
  Answer
    | .inl q => I.Answer q
    | .inr q => J.Answer q

def Interface.Event.inl {J : Interface} (e : I.Event) : (I.sum J).Event := ⟨.inl e.request, e.answer⟩

namespace Proc

def inl {J : Interface} : Proc I α → Proc (I.sum J) α
  | .ret a => .ret a
  | .ask q next => .ask (.inl q : I.Request ⊕ J.Request) fun r => (next r).inl

end Proc

/-! ### Plans -/

/-- The requests of a plan are made one after the other, up to the first that fails. The
flag says whether none did. -/
inductive Follows (fails : I.Event → Prop) : List I.Request → List I.Event → Bool → Prop
  | done : Follows fails [] [] true
  | stop {e : I.Event} (plan : List I.Request) (h : fails e) :
      Follows fails (e.request :: plan) [e] false
  | next {e : I.Event} {plan : List I.Request} {es : List I.Event} {ok : Bool}
      (h : ¬ fails e) (hes : Follows fails plan es ok) :
      Follows fails (e.request :: plan) (e :: es) ok

namespace Follows

variable {fails : I.Event → Prop} {plan more : List I.Request} {es rest : List I.Event} {ok : Bool}

theorem trans (h : Follows fails plan es true) (hrest : Follows fails more rest ok) :
    Follows fails (plan ++ more) (es ++ rest) ok := by
  induction plan generalizing es with
  | nil =>
    cases h
    exact hrest
  | cons q plan ih =>
    cases h with
    | next he hes => exact .next he (ih hes)

theorem stopped (h : Follows fails plan es false) (more : List I.Request) :
    Follows fails (plan ++ more) es false := by
  generalize hok : false = ok at h
  induction h with
  | done => cases hok
  | stop plan he => exact .stop _ he
  | next he _ ih => exact .next he (ih hok)

end Follows

end Patchli
