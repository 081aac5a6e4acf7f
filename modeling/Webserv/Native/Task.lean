import Mathlib.Logic.Equiv.Defs
import Webserv.Native.Future

/-!
# Callbacks in full, and code that is used in several places

A `Task` is what a callback does to the end: its effects, and the future it
attaches the next callback to.  An `Embedding` takes the expressions of one
signature to another one.  The code stays the same; a template of the source is
one expression, and its instances are the places it is embedded in.
-/

namespace Webserv.Futures

variable {S S' : Signature}

inductive Task (S : Signature) : Type where
  | done
  | perform (effect : S.Effect) (next : Task S)
  /-- `future.on_complete(callback)` -/
  | onComplete {t : S.Ty} (future : Expr S t) (callback : S.Val t → Task S)

/-- The program of a task. -/
def Task.code : Task S → Prog S
  | .done => .done
  | .perform effect next => .perform effect next.code
  | .onComplete future callback =>
    -- the callback is code of its own, run when the future is set
    future.code fun ref => .setCallback _ ref (fun val => (callback val).code) .done

/-- What the names of one signature are called in another. -/
structure Embedding (S S' : Signature) where
  ty : S.Ty → S'.Ty
  val : ∀ t : S.Ty, S.Val t ≃ S'.Val (ty t)
  contract : ∀ t : S.Ty, S.Contract t → S'.Contract (ty t)
  query : S.Query → S'.Query
  answer : ∀ query' : S.Query, S.Answer query' ≃ S'.Answer (query query')
  proc : ∀ t : S.Ty, S.Proc t → S'.Proc (ty t)
  /-- None, where an effect only stands for something to be looked at. -/
  effects : S.Effect → List S'.Effect

/-- The expression behind some effects. -/
def Expr.behind {t : S.Ty} (future : Expr S t) (effects : List S.Effect) : Expr S t :=
  effects.foldr .perform future

/-- The same expression. -/
def Expr.embed (φ : Embedding S S') {t : S.Ty} : Expr S t → Expr S' (φ.ty t)
  | .given contract => .given (φ.contract _ contract)
  | .fromVal val => .fromVal (φ.val _ val)
  | .when query handler =>
    .when (φ.query query) fun answer => φ.val _ (handler ((φ.answer query).symm answer))
  | .map future func =>
    -- values go there and back, as the function is one on the old signature
    .map (future.embed φ) fun val =>
      ((func ((φ.val _).symm val)).1.flatMap φ.effects, φ.val _ (func ((φ.val _).symm val)).2)
  | .flatmap future func =>
    .flatmap (future.embed φ) fun val => (func ((φ.val _).symm val)).embed φ
  -- an effect that only stands for a look at something becomes none
  | .perform effect future => (future.embed φ).behind (φ.effects effect)
  | .call proc => .call (φ.proc _ proc)

end Webserv.Futures
